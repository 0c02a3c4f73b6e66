import Tabula.Proofs.Command.Layout
import Tabula.Proofs.Condition.Token

/-!
# The first word of a command

A command is recognised by the text of its first token in capitals, whatever its kind. Besides a
keyword only a string can have such a text (`Lexeme.Picked.kind_of_upper`).
-/

namespace Tabula

theorem Derives.upper_mem {first : Token Kind} {ts : List (Token Kind)} {command : Command}
    (h : Derives (first :: ts) command) : Text.upper first.text ∈ commandWords := by
  generalize hall : first :: ts = all at h
  cases h with
  | intro hword hbody =>
    obtain ⟨rfl, -⟩ := List.cons.inj hall
    rw [hword]
    cases hbody <;> decide

/-- The letters of a word are mapped one by one. -/
theorem flatMap_of_isWordTail {f : Char → List Char} {g : Char → Char}
    (hp : (List.range 128).all (fun n => !Lexeme.isWordTail (Char.ofNat n) ||
      f (Char.ofNat n) == [g (Char.ofNat n)]) = true)
    {word : List Char} (h : ∀ c ∈ word, Lexeme.isWordTail c = true) :
    word.flatMap f = word.map g := by
  rw [List.map_eq_flatMap]
  refine List.flatMap_congr fun c hc => ?_
  exact beq_iff_eq.1 (forall_isWordTail (p := fun c => f c == [g c]) hp (h c hc))

theorem IsWord.flatMap_upperChar {word : List Char} (h : IsWord word) :
    word.flatMap Text.upperChar = word.map Char.toUpper :=
  flatMap_of_isWordTail (by decide) fun _ hc => h.isWordTail hc

theorem IsWord.upper {word : List Char} (h : IsWord word) :
    Text.upper (String.ofList word) = String.ofList (word.map Char.toUpper) := by
  rw [Text.upper, String.toList_ofList, h.flatMap_upperChar]

/-- The capital form of a sign or a digit is itself. -/
theorem upperChar_of_isNumeral {c : Char} (h : isNumeral c = true) : Text.upperChar c = [c] := by
  unfold Text.upperChar
  split
  · rename_i hlt
    have hp : (List.range 0x80).all (fun n => !isNumeral (Char.ofNat n) ||
        (Char.ofNat n).toUpper == Char.ofNat n) = true := by decide
    have hc := List.all_eq_true.1 hp c.toNat (List.mem_range.2 hlt)
    simpa [Char.ofNat_toNat, h] using hc
  · split
    case h_18 => rfl
    all_goals exact absurd h (by decide)

/-- No command begins with a number. -/
theorem upper_not_mem_commandWords {s : List Char} (hne : s ≠ [])
    (h : ∀ c ∈ s, isNumeral c = true) : Text.upper (String.ofList s) ∉ commandWords := by
  intro hword
  obtain ⟨c, s, rfl⟩ := List.exists_cons_of_ne_nil hne
  have hletter : commandWords.all (fun w => w.toList.head?.all Char.isAlpha) = true := by decide
  have hc : c.isAlpha = true := by
    simpa [upperChar_of_isNumeral (h c (by simp))] using List.all_eq_true.1 hletter _ hword
  have hp := forall_isWordTail (p := fun c => !c.isAlpha || !isNumeral c) (by decide)
    (by simp [Lexeme.isWordTail, Char.isAlphanum, hc] : Lexeme.isWordTail c = true)
  simp [hc, h c (by simp)] at hp

namespace Lexeme.Picked

variable {s : List Char} {l : Lexeme}

/-- What has the text of a command word is a word, or a string. -/
theorem word_or_string (h : Picked s l) (hword : Text.upper l.text ∈ commandWords) :
    (IsWord l.source ∧ l = ofWord l.source ∧
        Text.upper l.text = String.ofList (l.source.map Char.toUpper)) ∨
      l.kind = .string ∧ '\'' ∉ l.text.toList ∧ l.source = '\'' :: l.text.toList ++ ['\''] := by
  have hspells := h.spells 0
  obtain ⟨r, hr, rest, -, hgives⟩ := h.exists_gives
  cases hgives with
  | reserved hw _ hkind =>
    exact .inl ⟨hw, by simp [ofWord, hkind], by rw [hw.map_toUpper.upper, hw.map_toUpper_map]⟩
  | name hw _ hfree => exact .inl ⟨hw, by simp [ofWord, hfree], hw.upper⟩
  | float hsign hwhole hfraction =>
    have hnumeral := isNumeral_float hsign hwhole hfraction
    exact absurd hword (upper_not_mem_commandWords (by simp) hnumeral)
  | integer hsign hwhole =>
    have hnumeral := isNumeral_integer hsign hwhole
    exact absurd hword (upper_not_mem_commandWords (by simp [hwhole.ne_nil]) hnumeral)
  | string => exact .inr ⟨rfl, hspells⟩
  | symbol =>
    have hp := forall_symbol (p := fun _ spelling =>
      !commandWords.contains (Text.upper (String.ofList spelling))) (by decide) hr
    simp [hword] at hp

/-- What has the text of a command word is that keyword, or a string. -/
theorem kind_of_upper {k : Keyword} (h : Picked s l) (hk : k.spelling ∈ commandWords)
    (hword : Text.upper l.text = k.spelling) : l.kind = .keyword k ∨ l.kind = .string := by
  refine (h.word_or_string (hword ▸ hk)).imp ?_ And.left
  rintro ⟨-, hl, hcapitals⟩
  have hkind : Kind.reserved? (String.ofList (l.source.map Char.toUpper)) = some (.keyword k) := by
    rw [← hcapitals, hword]
    cases k <;> rfl
  rw [hl, ofWord, hkind]

end Lexeme.Picked

end Tabula
