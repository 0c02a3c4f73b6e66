import Tabula.Proofs.Outcome
import Tabula.Proofs.Text.Plain
import Tabula.Proofs.Token.Rule

/-!
# Names

A name is a word that is not reserved: a letter of ASCII, then letters, digits and underscores. The
text of an identifier is always a name (`isName_of_mem_statementTokens`), so a statement can name
neither a path of several parts nor a file outside its directory.
-/

namespace Tabula

def isWord : List Char → Bool
  | [] => false
  | c :: s => c.isAlpha && s.all Lexeme.isWordTail

theorem isWord_iff {s : List Char} : isWord s = true ↔ IsWord s := by
  constructor
  · intro h
    cases s with
    | nil => cases h
    | cons c s =>
      simp only [isWord, Bool.and_eq_true, List.all_eq_true] at h
      exact ⟨⟨c, rfl, h.1⟩, h.2⟩
  · rintro ⟨⟨c, hc, hletter⟩, htail⟩
    obtain ⟨s, rfl⟩ := List.head?_eq_some_iff.1 hc
    simp only [isWord, hletter, Bool.true_and, List.all_eq_true]
    exact htail

/-- A word that is not reserved in any letter case. -/
structure IsName (s : String) : Prop where
  word : isWord s.toList
  free : Kind.reserved? (String.ofList (s.toList.map Char.toUpper)) = none

instance (s : String) : Decidable (IsName s) :=
  decidable_of_iff
    (isWord s.toList ∧ Kind.reserved? (String.ofList (s.toList.map Char.toUpper)) = none)
    ⟨fun h => ⟨h.1, h.2⟩, fun h => ⟨h.word, h.free⟩⟩

/-! ### Characters of names -/

namespace IsName

variable {s : String}

theorem isWordTail (h : IsName s) {c : Char} (hc : c ∈ s.toList) :
    Lexeme.isWordTail c = true :=
  (isWord_iff.1 h.word).isWordTail hc

theorem not_mem (h : IsName s) {c : Char} (hc : Lexeme.isWordTail c = false) : c ∉ s.toList := by
  intro hmem
  exact absurd (h.isWordTail hmem) (by simp [hc])

theorem ne_empty (h : IsName s) : s ≠ "" := by
  rintro rfl
  exact absurd h.word (by decide)

theorem plain (h : IsName s) : Text.Plain s := by
  intro c hc
  refine ⟨?_, Text.not_break_of (by decide) (h.isWordTail hc)⟩
  rintro rfl
  exact h.not_mem (by decide) hc

end IsName

/-! ### Identifiers -/

/-- Every token is a lexeme that stands at the start of a rest of the text. -/
theorem exists_lexeme_of_mem_scan {pos : Nat} {s : List Char} {tokens : List (Token Kind)}
    (h : scan pos s = .ok tokens) {t : Token Kind} (ht : t ∈ tokens) :
    ∃ r l, r <:+ s ∧ Lexeme.first? r = some l ∧ t.kind = l.kind ∧ t.text = l.text := by
  fun_induction scan pos s generalizing tokens with
  | case1 => cases h; simp at ht
  | case2 pos c r _ ih =>
    obtain ⟨r', l, hsuffix, hl⟩ := ih h ht
    exact ⟨r', l, hsuffix.trans (List.suffix_cons c r), hl⟩
  | case3 pos c r _ hnone => cases h
  | case4 pos c r _ l hl ih =>
    cases hrest : scan (pos + l.source.length) ((c :: r).drop l.source.length) with
    | error e => simp [hrest, Except.map] at h
    | ok rest =>
      simp only [hrest, Except.map, Except.ok.injEq] at h
      subst h
      rcases List.mem_cons.1 ht with rfl | ht
      · exact ⟨c :: r, l, List.suffix_refl _, hl, rfl, rfl⟩
      · obtain ⟨r', l', hsuffix, hl'⟩ := ih hrest ht
        exact ⟨r', l', hsuffix.trans (List.drop_suffix _ _), hl'⟩

theorem scan_of_statementTokens {text : String} {tokens : List (Token Kind)}
    (h : statementTokens text = .ok tokens) : scan 0 text.toList = .ok tokens := by
  obtain ⟨all, hscan, h⟩ := bind_eq_ok_iff.1 h
  split at h
  · cases h
  · rw [hscan]
    exact h
  · cases h

/-- Every token of a statement is given by a rule. -/
theorem Lexeme.exists_gives_of_mem {text : String} {tokens : List (Token Kind)}
    (h : statementTokens text = .ok tokens) {t : Token Kind} (ht : t ∈ tokens) :
    ∃ r ∈ rules, ∃ source rest, r.Gives ⟨t.kind, t.text, source⟩ rest := by
  obtain ⟨s, l, -, hl, hkind, htext⟩ := exists_lexeme_of_mem_scan (scan_of_statementTokens h) ht
  obtain ⟨r, hr, rest, -, hgives⟩ := (Lexeme.first?_eq_some_iff.1 hl).exists_gives
  exact ⟨r, hr, l.source, rest, by rw [hkind, htext]; exact hgives⟩

/-- Only a word that is not reserved is an identifier. -/
theorem Rule.Gives.isName {r : Rule} {l : Lexeme} {rest : List Char} (h : r.Gives l rest)
    (hr : r ∈ rules) (hkind : l.kind = .identifier) : IsName l.text := by
  cases h with
  | reserved _ _ hreserved =>
    dsimp only at hkind
    subst hkind
    obtain ⟨k, hk⟩ | hk | hk := Kind.reserved?_cases hreserved <;> cases hk
  | name hword _ hfree => exact ⟨isWord_iff.2 (by simpa using hword), by simpa using hfree⟩
  | symbol =>
    have hnot := forall_symbol (p := fun kind _ => kind != .identifier) (by decide) hr
    simp_all
  | _ => cases hkind

/-- The text of an identifier is a name. -/
theorem isName_of_mem_statementTokens {text : String} {tokens : List (Token Kind)}
    (h : statementTokens text = .ok tokens) {t : Token Kind} (ht : t ∈ tokens)
    (hkind : t.kind = .identifier) : IsName t.text := by
  obtain ⟨r, hr, source, rest, hgives⟩ := Lexeme.exists_gives_of_mem h ht
  exact hgives.isName hr hkind

end Tabula
