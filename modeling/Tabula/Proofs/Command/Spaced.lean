import Tabula.Proofs.Command.RoundTrip

/-!
# Spacing and letter case

A statement may be spaced in any way and its reserved words written in any letter case: the tokens
that the lexer finds are the same but for their places (`Spaced.exists_layout`), and the grammar
looks neither at places nor at how a token is written (`Layout.parse_congr`). So the command stays
the same, with the text of its condition (`Command.parse_spaced`).

## Main definitions

* `Spaced` — tokens written one after another, each in one of its spellings, with blanks between
  them.
-/

namespace Tabula

/-- Characters that are skipped between tokens. -/
def AllSkipped (s : List Char) : Prop := ∀ c ∈ s, isSkipped c = true

instance (s : List Char) : Decidable (AllSkipped s) :=
  decidable_of_iff (s.all isSkipped = true) List.all_eq_true

/-- A text of tokens in order, each written in one of its spellings. Behind every token but the last
there is at least one character that is skipped, and behind the last there may be some. -/
inductive Spaced : List (Token Kind) → List Char → Prop
  | last {t : Token Kind} {source after : List Char} :
      t.Spells source → AllSkipped after → Spaced [t] (source ++ after)
  | cons {t : Token Kind} {source gap s : List Char} {ts : List (Token Kind)} :
      t.Spells source → gap ≠ [] → AllSkipped gap → Spaced ts s →
      Spaced (t :: ts) (source ++ gap ++ s)

/-! ### Spellings of a token -/

/-- A text is a word if its capitals are. -/
theorem IsWord.of_map_toUpper {s : List Char} (h : IsWord (s.map Char.toUpper)) : IsWord s := by
  have hcapital (c : Char) : c.isLower = true ∨ c.toUpper = c := by
    by_cases hrange : c.val ≥ 'a'.val ∧ c.val ≤ 'z'.val
    · exact .inl (Bool.and_eq_true_iff.2 ⟨decide_eq_true hrange.1, decide_eq_true hrange.2⟩)
    · exact .inr (dif_neg hrange)
  have halpha {c : Char} (hc : c.toUpper.isAlpha = true) : c.isAlpha = true := by
    rcases hcapital c with hlower | hsame
    · exact Bool.or_eq_true_iff.2 (.inr hlower)
    · exact hsame ▸ hc
  have htail {c : Char} (hc : Lexeme.isWordTail c.toUpper = true) :
      Lexeme.isWordTail c = true := by
    rcases hcapital c with hlower | hsame
    · have hletter : c.isAlpha = true := Bool.or_eq_true_iff.2 (.inr hlower)
      simp [Lexeme.isWordTail, Char.isAlphanum, hletter]
    · exact hsame ▸ hc
  obtain ⟨⟨d, hd, hletter⟩, hrest⟩ := h
  cases s with
  | nil => cases hd
  | cons c s =>
    cases hd
    exact ⟨⟨c, rfl, halpha hletter⟩, fun d hd => htail (hrest _ (List.mem_map_of_mem hd))⟩

namespace Token

variable {t : Token Kind} {source : List Char}

/-- A rule gives a token in front of each of its spellings. -/
theorem Given.exists_gives_of_spells (h : t.Given) (hsource : t.Spells source) :
    ∃ r ∈ rules, ∃ rest, r.Gives ⟨t.kind, t.text, source⟩ rest := by
  obtain ⟨kind, text, pos⟩ := t
  obtain ⟨r, hr, source', rest, hgives⟩ := h
  refine ⟨r, hr, rest, ?_⟩
  dsimp only at hgives ⊢
  cases hgives with
  | reserved hword hrest hkind =>
    have hcapitals : source.map Char.toUpper = source'.map Char.toUpper := by
      obtain ⟨k, rfl⟩ | rfl | rfl := Kind.reserved?_cases hkind <;>
        exact hsource.trans String.toList_ofList
    have hsource' : IsWord source := .of_map_toUpper (hcapitals ▸ hword.map_toUpper)
    rw [← hcapitals] at hkind ⊢
    exact .reserved hsource' hrest hkind
  | name hword hrest hkind =>
    obtain rfl : source = source' := hsource.trans String.toList_ofList
    exact .name hword hrest hkind
  | float hsign hwhole hfraction hrest =>
    obtain rfl := hsource.trans String.toList_ofList
    exact .float hsign hwhole hfraction hrest
  | integer hsign hwhole hrest =>
    obtain rfl := hsource.trans String.toList_ofList
    exact .integer hsign hwhole hrest
  | @string body _ hbody =>
    obtain rfl : source = '\'' :: body ++ ['\''] := by simpa using hsource.2
    exact .string hbody
  | symbol =>
    have hplain : kind.isWord = false ∧ kind ≠ .string := by
      simpa using forall_symbol (p := fun kind _ => !kind.isWord && kind != .string) (by decide) hr
    obtain rfl : source = source' := by
      unfold Spells at hsource
      split at hsource <;> simp_all [Kind.isWord]
    exact .symbol

end Token

/-! ### Texts with the same tokens -/

theorem Layout.skips {gap s rest : List Char} {ls : List Lexeme} (hgap : AllSkipped gap)
    (h : Layout s ls rest) : Layout (gap ++ s) ls rest := by
  induction gap with
  | nil => exact h
  | cons c gap ih =>
    obtain ⟨hc, hgap⟩ := List.forall_mem_cons.1 hgap
    exact .skip hc (ih hgap)

theorem AllSkipped.loose {gap : List Char} (hgap : AllSkipped gap) (hne : gap ≠ [])
    (s : List Char) : Loose (gap ++ s) := by
  obtain ⟨c, gap, rfl⟩ := List.exists_cons_of_ne_nil hne
  exact loose_of_isSkipped (hgap c (by simp)) (gap ++ s)

/-- What is written from tokens is laid out from their lexemes. -/
theorem Spaced.exists_layout {ts : List (Token Kind)} {s : List Char} (h : Spaced ts s)
    (hts : ∀ t ∈ ts, t.Given) :
    ∃ ls, Layout s ls [] ∧ ls.map (·.token 0) = ts.map Token.unplaced := by
  induction h with
  | @last t source after hsource hafter =>
    obtain ⟨r, hr, rest, hgives⟩ := (hts t (by simp)).exists_gives_of_spells hsource
    have hloose : Loose (after ++ []) := by
      rcases eq_or_ne after [] with rfl | hne
      · exact loose_nil
      · exact hafter.loose hne []
    have hlayout : Layout after [] [] := List.append_nil after ▸ Layout.nil.skips hafter
    exact ⟨[⟨t.kind, t.text, source⟩], .cons (hgives.picked_of_loose hr hloose) hlayout, rfl⟩
  | @cons t source gap s ts hsource hne hgap _ ih =>
    obtain ⟨hgiven, hts⟩ := List.forall_mem_cons.1 hts
    obtain ⟨r, hr, rest, hgives⟩ := hgiven.exists_gives_of_spells hsource
    obtain ⟨ls, hlayout, hls⟩ := ih hts
    have hloose : Loose ((gap ++ s) ++ []) := by
      rw [List.append_assoc]
      exact hgap.loose hne _
    refine ⟨⟨t.kind, t.text, source⟩ :: ls, ?_, ?_⟩
    · rw [List.append_assoc]
      exact .cons (hgives.picked_of_loose hr hloose) (hlayout.skips hgap)
    · rw [List.map_cons, hls, List.map_cons]
      rfl

/-- However the tokens of a statement are spaced, and whatever letter case its reserved words are
written in, it states the same command. -/
theorem Command.parse_spaced {text : String} {command : Command}
    (h : Command.parse text = .ok command) :
    ∃ tokens, tokenize text = .ok (tokens ++ [endToken text]) ∧
      ∀ before s, AllSkipped before → Spaced tokens s →
        Command.parse (String.ofList (before ++ s)) = .ok command := by
  obtain ⟨first, k, body, stop, rest, htokens, -⟩ := exists_production_of_parse h
  refine ⟨_, tokenize_eq_ok_iff.2 ⟨_, htokens, rfl⟩, fun before s hbefore hs => ?_⟩
  obtain ⟨ls, hlayout, hls⟩ := hs.exists_layout fun t ht => Lexeme.exists_gives_of_mem htokens ht
  refine Layout.parse_congr htokens h ?_ hls
  rw [String.toList_ofList]
  exact hlayout.skips hbefore

/-- Blanks of every kind, and reserved words in three letter cases. -/
theorem Command.parse_spaced_delete :
    Command.parse "delete FROM t where a like 'or';" = .ok (.delete "t" "a LIKE 'or'") ∧
      Command.parse "\nDELETE\tFrom t\r\nwhere a  LIKE 'or' ; " =
        .ok (.delete "t" "a LIKE 'or'") := by
  have hparse : Command.parse "delete FROM t where a like 'or';" =
      .ok (.delete "t" "a LIKE 'or'") := by decide +kernel
  obtain ⟨tokens, htokens, hspaced⟩ := Command.parse_spaced hparse
  have hread : tokenize "delete FROM t where a like 'or';" = .ok ([⟨.keyword .DELETE, "DELETE", 0⟩,
      ⟨.keyword .FROM, "FROM", 7⟩, ⟨.identifier, "t", 12⟩, ⟨.keyword .WHERE, "WHERE", 14⟩,
      ⟨.identifier, "a", 20⟩, ⟨.keyword .LIKE, "LIKE", 22⟩, ⟨.string, "or", 27⟩,
      ⟨.terminator, ";", 31⟩] ++ [endToken "delete FROM t where a like 'or';"]) := by decide +kernel
  obtain rfl := List.append_cancel_right (Except.ok.inj (hread.symm.trans htokens))
  have hs := hspaced ['\n'] ("DELETE".toList ++ ['\t'] ++ ("From".toList ++ [' '] ++
    ("t".toList ++ ['\r', '\n'] ++ ("where".toList ++ [' '] ++ ("a".toList ++ [' ', ' '] ++
      ("LIKE".toList ++ [' '] ++ ("'or'".toList ++ [' '] ++ (";".toList ++ [' '])))))))) (by decide)
  refine ⟨hparse, hs ?_⟩
  exact .cons rfl (by decide) (by decide) <| .cons rfl (by decide) (by decide) <|
    .cons rfl (by decide) (by decide) <| .cons rfl (by decide) (by decide) <|
      .cons rfl (by decide) (by decide) <| .cons rfl (by decide) (by decide) <|
        .cons ⟨by decide, rfl⟩ (by decide) (by decide) <| .last rfl (by decide)

end Tabula
