import Mathlib.Data.List.TakeDrop
import Tabula.Proofs.Script.Semicolon
import Tabula.Proofs.Token.Boundary

/-!
# Texts laid out from lexemes

A text is laid out from lexemes if they stand in it one after another, with or without blanks
between them, and each is what the lexer picks at its place (`Layout`). Layouts know no offsets:
they are put together (`Layout.append`) and moved in front of another text that makes no lexeme
longer (`Layout.loosen`). The scan of a text finds the lexemes that it is laid out from
(`Layout.exists_scan`), and a text that tokens cover is laid out from their lexemes, also piece by
piece if it is cut where no token goes on (`Covers.exists_layout`, `Covers.split`).
-/

namespace Tabula

/-- A text is these lexemes one after another, with blanks between them, in front of a rest. -/
inductive Layout : List Char → List Lexeme → List Char → Prop
  | nil {rest : List Char} : Layout [] [] rest
  | skip {c : Char} {s rest : List Char} {ls : List Lexeme} :
      isSkipped c = true → Layout s ls rest → Layout (c :: s) ls rest
  | cons {l : Lexeme} {s rest : List Char} {ls : List Lexeme} :
      Lexeme.Picked (l.source ++ (s ++ rest)) l → Layout s ls rest →
      Layout (l.source ++ s) (l :: ls) rest

/-- A token without its place. -/
def Token.unplaced (t : Token Kind) : Token Kind := { t with pos := 0 }

theorem Token.unplaced_eq_iff {t u : Token Kind} :
    t.unplaced = u.unplaced ↔ t.kind = u.kind ∧ t.text = u.text := by
  simp [Token.unplaced]

@[simp] theorem Lexeme.unplaced_token (l : Lexeme) (pos : Nat) :
    (l.token pos).unplaced = l.token 0 := rfl

theorem Lexeme.token_eq_unplaced_iff {l : Lexeme} {t : Token Kind} :
    l.token 0 = t.unplaced ↔ l.kind = t.kind ∧ l.text = t.text := by
  simp [Lexeme.token, Token.unplaced]

/-- Tokens that are those of lexemes but for their places have as many terminators. -/
theorem length_terminators_eq {tokens : List (Token Kind)} {ls : List Lexeme}
    (h : tokens.map Token.unplaced = ls.map (·.token 0)) :
    (tokens.filter (·.kind = .terminator)).length =
      (ls.filter (·.kind = .terminator)).length := by
  have hfilter := congrArg (List.filter (·.kind = .terminator)) h
  rw [List.filter_map, List.filter_map] at hfilter
  have hlength := congrArg List.length hfilter
  rwa [List.length_map, List.length_map] at hlength

theorem scan_of_picked {l : Lexeme} {s : List Char} (h : Lexeme.Picked (l.source ++ s) l)
    (pos : Nat) : scan pos (l.source ++ s) =
      (scan (pos + l.source.length) s).map (l.token pos :: ·) := by
  have hfirst := Lexeme.first?_eq_some_iff.2 h
  obtain ⟨c, r, hc⟩ := List.exists_cons_of_ne_nil (Lexeme.source_ne_nil hfirst)
  have hs : l.source ++ s = c :: (r ++ s) := by rw [hc]; rfl
  rw [hs] at hfirst ⊢
  rw [scan_of_first?_eq_some hfirst, ← hs, List.drop_left]

theorem Script.quoted_append (q : Bool) (s t : List Char) :
    quoted q (s ++ t) = quoted (quoted q s) t := by
  induction s generalizing q with
  | nil => rfl
  | cons c s ih => exact ih _

/-- A lexeme ends outside quotes. -/
theorem Lexeme.Picked.quoted_source {s : List Char} {l : Lexeme} (h : Picked s l) :
    Script.quoted false l.source = false := by
  obtain ⟨r, hr, rest, -, hgives⟩ := h.exists_gives
  rcases hgives.unmarked hr with ⟨-, hsource⟩ | ⟨-, body, hbody, hsource⟩ | ⟨-, hplain⟩
  · rw [hsource]
    rfl
  · rw [hsource, Script.quoted_eq_iff]
    simp [List.count_eq_zero_of_not_mem hbody]
  · exact hplain.quoted false

/-- A terminator is a semicolon. -/
theorem Lexeme.Picked.source_of_terminator {s : List Char} {l : Lexeme} (h : Picked s l)
    (hkind : l.kind = .terminator) : l.source = [';'] ∧ l.text = ";" := by
  obtain ⟨r, hr, rest, -, hgives⟩ := h.exists_gives
  have hsource : l.source = [';'] := by
    rcases hgives.unmarked hr with ⟨-, hsource⟩ | ⟨hnot, -⟩ | ⟨hnot, -⟩
    · exact hsource
    · exact absurd hkind hnot
    · exact absurd hkind hnot
  have hspelled : l.source = l.text.toList := by
    have hspells := h.spells 0
    rwa [Token.Spells, Lexeme.token, hkind] at hspells
  refine ⟨hsource, ?_⟩
  rw [← String.toList_inj, ← hspelled, hsource]
  rfl

namespace Layout

variable {s t rest x y : List Char} {ls ms : List Lexeme} {l : Lexeme}

theorem append (hs : Layout s ls (t ++ rest)) (ht : Layout t ms rest) :
    Layout (s ++ t) (ls ++ ms) rest := by
  generalize hr : t ++ rest = r at hs
  induction hs with
  | nil => exact ht
  | skip hc _ ih => exact .skip hc (ih hr)
  | @cons l s _ ls hl _ ih =>
    subst hr
    rw [List.append_assoc]
    exact .cons (by simpa using hl) (ih rfl)

/-- The rest may be left for one that makes no lexeme longer. -/
theorem loosen (h : Layout s ls x) (hy : Loose y) : Layout s ls y := by
  induction h with
  | nil => exact .nil
  | skip hc _ ih => exact .skip hc ih
  | cons hl _ ih => exact .cons (hl.loosen hy) ih

/-- Every lexeme of a layout is picked somewhere. -/
theorem exists_picked (h : Layout s ls rest) : ∀ l ∈ ls, ∃ r, Lexeme.Picked r l := by
  induction h with
  | nil => simp
  | skip _ _ ih => exact ih
  | cons hl _ ih => exact List.forall_mem_cons.2 ⟨⟨_, hl⟩, ih⟩

/-- The tokens of a text that is laid out as a whole. -/
theorem exists_scan (h : Layout s ls []) (pos : Nat) :
    ∃ tokens, scan pos s = .ok tokens ∧ tokens.map Token.unplaced = ls.map (·.token 0) := by
  generalize hrest : [] = rest at h
  induction h generalizing pos with
  | nil => exact ⟨[], by rw [scan], rfl⟩
  | @skip c s _ ls hc _ ih =>
    rw [scan_of_isSkipped hc]
    exact ih (pos + 1) hrest
  | @cons l s _ ls hl _ ih =>
    subst hrest
    obtain ⟨tokens, hscan, htokens⟩ := ih (pos + l.source.length) rfl
    rw [List.append_nil] at hl
    refine ⟨l.token pos :: tokens, ?_, by simp [htokens]⟩
    rw [scan_of_picked hl, hscan]
    rfl

/-- A layout is cut around one of its lexemes. -/
theorem exists_split (h : Layout s (ls ++ l :: ms) rest) : ∃ before after,
    s = before ++ (l.source ++ after) ∧ Layout before ls (l.source ++ (after ++ rest)) ∧
      Lexeme.Picked (l.source ++ (after ++ rest)) l ∧ Layout after ms rest := by
  generalize hall : ls ++ l :: ms = all at h
  induction h generalizing ls with
  | nil => simp at hall
  | @skip c _ _ _ hc _ ih =>
    obtain ⟨before, after, rfl, hbefore, hl, hafter⟩ := ih hall
    exact ⟨c :: before, after, rfl, .skip hc hbefore, hl, hafter⟩
  | @cons m s rest _ hm hs ih =>
    cases ls with
    | nil =>
      obtain ⟨rfl, rfl⟩ := List.cons.inj hall
      exact ⟨[], s, rfl, .nil, hm, hs⟩
    | cons k ls =>
      obtain ⟨rfl, hrest⟩ := List.cons.inj hall
      obtain ⟨before, after, rfl, hbefore, hl, hafter⟩ := ih hrest
      exact ⟨k.source ++ before, after, by simp, .cons (by simpa using hm) hbefore, hl, hafter⟩

/-! ### Quotes and semicolons -/

open Script

/-- A layout ends outside quotes. -/
theorem quoted_eq (h : Layout s ls rest) : quoted false s = false := by
  induction h with
  | nil => rfl
  | @skip c s _ _ hc _ ih =>
    have hc : c ≠ '\'' := by
      rintro rfl
      exact absurd hc (by decide)
    rw [quoted, if_neg hc, ih]
  | cons hl _ ih => rw [quoted_append, hl.quoted_source, ih]

/-- A layout has a semicolon outside quotes for each terminator. -/
theorem length_outside (h : Layout s ls rest) (pos : Nat) :
    (outside false pos s).length = (ls.filter (·.kind = .terminator)).length := by
  obtain ⟨tokens, hscan, htokens⟩ := (h.loosen loose_nil).exists_scan pos
  rw [← pos_terminators_of_scan hscan, List.length_map, length_terminators_eq htokens]

end Layout

/-! ### Layouts of covered texts -/

namespace Covers

variable {text : List Char} {start stop p : Nat} {tokens : List (Token Kind)}

/-- A stretch of a text is laid out from the lexemes of its tokens. -/
theorem exists_layout (h : Covers text start stop tokens) :
    ∃ ls, Layout ((text.drop start).take (stop - start)) ls (text.drop stop) ∧
      tokens.map Token.unplaced = ls.map (·.token 0) := by
  induction hn : stop - start using Nat.strongRecOn generalizing start tokens with
  | ind n ih =>
    subst hn
    rcases Nat.eq_or_lt_of_le h.start_le with rfl | hlt
    · rw [h.eq_nil, Nat.sub_self, List.take_zero]
      exact ⟨[], .nil, rfl⟩
    have hstop := h.stop_le
    cases hl : Lexeme.first? (text.drop start) with
    | none =>
      obtain ⟨⟨c, hc, hblank⟩, hlater⟩ := h.of_first?_eq_none hlt hl
      obtain ⟨ls, hlayout, htokens⟩ := ih _ (by omega) hlater rfl
      refine ⟨ls, ?_, htokens⟩
      obtain ⟨hlength, rfl⟩ := List.getElem?_eq_some_iff.1 hc
      have hs := List.drop_eq_getElem_cons hlength
      have hwidth : stop - start = stop - (start + 1) + 1 := by omega
      rw [hs, hwidth, List.take_succ_cons]
      exact .skip hblank hlayout
    | some l =>
      obtain ⟨later, rfl, hlater⟩ := h.of_first?_eq_some hlt hl
      have hpicked := Lexeme.first?_eq_some_iff.1 hl
      have hpos := hpicked.length_pos
      have hle := hlater.start_le
      obtain ⟨ls, hlayout, htokens⟩ := ih _ (by omega) hlater rfl
      refine ⟨l :: ls, ?_, by simp [htokens]⟩
      -- the text goes on behind the lexeme with what the other tokens cover
      obtain ⟨-, -, rest, hs, -⟩ := hpicked.exists_gives
      have hrest : rest = text.drop (start + l.source.length) := by
        rw [← List.drop_drop, hs, List.drop_left]
      have hwidth : stop - start = l.source.length + (stop - (start + l.source.length)) := by omega
      have hwhole : (text.drop (start + l.source.length)).take (stop - (start + l.source.length)) ++
          text.drop stop = rest := by
        have hwhole := List.drop_take_append_drop text (start + l.source.length)
          (stop - (start + l.source.length))
        rw [Nat.add_sub_cancel' hle] at hwhole
        rw [hwhole, hrest]
      rw [hs, hwidth, List.take_length_add_append, hrest]
      exact .cons (by rw [hwhole, ← hs]; exact hpicked) hlayout

/-- Where no token goes on, the tokens are cut in those that end before and those that begin
after. -/
theorem exists_cut (h : Covers text start stop tokens)
    (hgap : ∀ t ∈ tokens, t.pos + t.width ≤ p ∨ p ≤ t.pos) :
    ∃ before after, tokens = before ++ after ∧ (∀ t ∈ before, t.pos + t.width ≤ p) ∧
      ∀ t ∈ after, p ≤ t.pos := by
  refine ⟨tokens.takeWhile (·.pos < p), tokens.dropWhile (·.pos < p),
    List.takeWhile_append_dropWhile.symm, fun t ht => ?_, ?_⟩
  · have hlt : t.pos < p := by simpa using List.all_eq_true.1 List.all_takeWhile t ht
    have hgap := hgap t ((List.takeWhile_prefix _).mem ht)
    omega
  · have hordered := h.ordered.sublist (List.dropWhile_sublist (p := fun t => t.pos < p))
    have hhead := List.head?_dropWhile_not (fun t : Token Kind => t.pos < p) tokens
    cases hdrop : tokens.dropWhile (·.pos < p) with
    | nil => simp
    | cons u later =>
      rw [hdrop] at hordered hhead
      have hu : p ≤ u.pos := by simpa using hhead
      refine List.forall_mem_cons.2 ⟨hu, fun t ht => ?_⟩
      exact Nat.le_trans hu (Nat.le_of_lt ((List.pairwise_cons.1 hordered).1 t ht).1)

/-- Tokens that end before a place cover the text up to it, and those that begin after it cover the
rest. -/
theorem cut {before after : List (Token Kind)} (h : Covers text start stop (before ++ after))
    (hstart : start ≤ p) (hstop : p ≤ stop) (hfront : ∀ t ∈ before, t.pos + t.width ≤ p)
    (hback : ∀ t ∈ after, p ≤ t.pos) :
    Covers text start p before ∧ Covers text p stop after := by
  have hordered := List.pairwise_append.1 h.ordered
  constructor
  · exact {
      start_le := hstart
      stop_le := Nat.le_trans hstop h.stop_le
      ordered := hordered.1
      inside := fun t ht => ⟨(h.inside t (by simp [ht])).1, hfront t ht⟩
      spelled := fun t ht => h.spelled t (by simp [ht])
      picked := fun t ht => h.picked t (by simp [ht])
      skipped := by
        intro q hq hlt hout
        refine h.skipped q hq (by omega) (List.forall_mem_append.2 ⟨hout, fun t ht => ?_⟩)
        have := hback t ht
        omega }
  · exact {
      start_le := hstop
      stop_le := h.stop_le
      ordered := hordered.2.1
      inside := fun t ht => ⟨hback t ht, (h.inside t (by simp [ht])).2⟩
      spelled := fun t ht => h.spelled t (by simp [ht])
      picked := fun t ht => h.picked t (by simp [ht])
      skipped := by
        intro q hq hlt hout
        refine h.skipped q (by omega) hlt (List.forall_mem_append.2 ⟨fun t ht => ?_, hout⟩)
        have := hfront t ht
        omega }

/-- The tokens up to one of them cover the text up to its end. -/
theorem front {t : Token Kind} {before after : List (Token Kind)}
    (h : Covers text start stop (before ++ t :: after)) :
    Covers text start (t.pos + t.width) (before ++ [t]) := by
  obtain ⟨-, hafter, hbefore⟩ := List.pairwise_append.1 h.ordered
  have ht := h.inside t (by simp)
  rw [← List.singleton_append, ← List.append_assoc] at h
  refine (h.cut (by omega) ht.2 ?_ fun u hu => ((List.pairwise_cons.1 hafter).1 u hu).2).1
  refine List.forall_mem_append.2 ⟨fun u hu => ?_, by simp⟩
  have := hbefore u hu t (by simp)
  omega

/-- The tokens from one of them on cover the text from its place on. -/
theorem back {t : Token Kind} {before after : List (Token Kind)}
    (h : Covers text start stop (before ++ t :: after)) :
    Covers text t.pos stop (t :: after) := by
  obtain ⟨-, hafter, hbefore⟩ := List.pairwise_append.1 h.ordered
  have ht := h.inside t (by simp)
  refine (h.cut ht.1 (by omega) (fun u hu => (hbefore u hu t (by simp)).2) ?_).2
  refine List.forall_mem_cons.2 ⟨Nat.le_refl _, fun u hu => ?_⟩
  exact Nat.le_of_lt ((List.pairwise_cons.1 hafter).1 u hu).1

/-- A stretch of a text is cut where no token goes on. -/
theorem split (h : Covers text start stop tokens) (hstart : start ≤ p) (hstop : p ≤ stop)
    (hgap : ∀ t ∈ tokens, t.pos + t.width ≤ p ∨ p ≤ t.pos) :
    ∃ before after, tokens = before ++ after ∧ Covers text start p before ∧
      Covers text p stop after := by
  obtain ⟨before, after, rfl, hfront, hback⟩ := h.exists_cut hgap
  exact ⟨before, after, rfl, h.cut hstart hstop hfront hback⟩

end Covers

/-- A text that is read in full is laid out from the lexemes of its tokens. -/
theorem Layout.exists_of_scan {text : List Char} {tokens : List (Token Kind)}
    (h : scan 0 text = .ok tokens) :
    ∃ ls, Layout text ls [] ∧ tokens.map Token.unplaced = ls.map (·.token 0) := by
  obtain ⟨ls, hlayout, hls⟩ := (scan_eq_ok_iff.1 h).exists_layout
  rw [List.drop_zero, Nat.sub_zero, List.take_length, List.drop_length] at hlayout
  exact ⟨ls, hlayout, hls⟩

end Tabula
