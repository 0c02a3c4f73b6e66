import Tabula.Proofs.Command.Grammar
import Tabula.Proofs.Text.Plain
import Tabula.Proofs.Token.Cover
import Tabula.Text.Encoding

/-!
# The values of commands

What a command puts in cells are texts of literals. A number, a truth value and `NULL` are written
without tabs and line breaks, and without undecoded bytes. So the values of a command are plain if
its strings are (`plain_values`), and can be encoded if its strings can (`encodes_values`).
-/

namespace Tabula

open Text (Plain)

/-! ### Literals that are no strings -/

/-- The characters of numbers. -/
def isNumeral (c : Char) : Bool := Text.isDigit c || c == '+' || c == '-' || c == '.'

theorem plain_of_isNumeral {s : List Char} (h : ∀ c ∈ s, isNumeral c = true) :
    Plain (String.ofList s) := by
  intro c hc
  rw [String.toList_ofList] at hc
  refine ⟨?_, Text.not_break_of (by decide) (h c hc)⟩
  rintro rfl
  exact absurd (h _ hc) (by decide)

/-- The digits of no script are characters of private use. -/
theorem encodes_of_isNumeral {e : Text.Encoding} {s : List Char}
    (h : ∀ c ∈ s, isNumeral c = true) : e.Encodes (String.ofList s) := by
  have hzeros : ∀ z ∈ Text.zeros, z + 10 ≤ 0xE000 ∨ 0xF8FF < z := by decide
  intro c hc
  rw [String.toList_ofList] at hc
  have hc := h c hc
  simp only [isNumeral, Bool.or_eq_true, beq_iff_eq] at hc
  refine Text.Encoding.byte?_eq_none ?_
  rcases hc with ((hdigit | rfl) | rfl) | rfl
  · obtain ⟨d, hvalue⟩ := Option.isSome_iff_exists.1 hdigit
    obtain ⟨z, hz, -⟩ := Option.map_eq_some_iff.1 hvalue
    have hrange := List.find?_some hz
    simp only [Bool.and_eq_true, decide_eq_true_eq] at hrange
    have hzero := hzeros z (List.mem_of_find?_eq_some hz)
    omega
  all_goals exact .inl (by decide)

theorem IsSign.isNumeral {sign : List Char} (h : IsSign sign) : ∀ c ∈ sign, isNumeral c = true := by
  rcases h with rfl | rfl | rfl <;> simp [Tabula.isNumeral]

theorem IsDigits.isNumeral {digits : List Char} (h : IsDigits digits) :
    ∀ c ∈ digits, isNumeral c = true := by
  intro c hc
  simp [Tabula.isNumeral, h.digit c hc]

section

variable {sign whole fraction : List Char} (hsign : IsSign sign) (hwhole : IsDigits whole)

include hsign hwhole

theorem isNumeral_integer : ∀ c ∈ sign ++ whole, isNumeral c = true :=
  List.forall_mem_append.2 ⟨hsign.isNumeral, hwhole.isNumeral⟩

theorem isNumeral_float (hfraction : IsDigits fraction) :
    ∀ c ∈ sign ++ whole ++ '.' :: fraction, isNumeral c = true :=
  List.forall_mem_append.2 ⟨isNumeral_integer hsign hwhole,
    List.forall_mem_cons.2 ⟨by decide, hfraction.isNumeral⟩⟩

end

/-- The words that are literals. -/
theorem Kind.mem_of_reserved? {word : String} {kind : Kind}
    (h : Kind.reserved? word = some kind) (hliteral : kind.isLiteral = true) :
    word ∈ ["NULL", "TRUE", "FALSE"] := by
  unfold Kind.reserved? at h
  split at h
  · cases h
    cases hliteral
  · split at h
    · subst word
      decide
    · split at h
      · rename_i hword
        obtain rfl | rfl : word = "TRUE" ∨ word = "FALSE" := by simpa using hword
        · decide
        · decide
      · cases h

/-- What holds of all numerals and of the words that are literals holds of each literal that is no
string. -/
theorem of_isLiteral {P : String → Prop}
    (hnumeral : ∀ s : List Char, (∀ c ∈ s, isNumeral c = true) → P (String.ofList s))
    (hword : ∀ word ∈ ["NULL", "TRUE", "FALSE"], P word) {text : String}
    {tokens : List (Token Kind)} (h : statementTokens text = .ok tokens) {t : Token Kind}
    (ht : t ∈ tokens) (hliteral : t.kind.isLiteral = true) (hstring : t.kind ≠ .string) :
    P t.text := by
  obtain ⟨kind, word, pos⟩ := t
  dsimp only at hliteral hstring ⊢
  obtain ⟨r, hr, source, rest, hgives⟩ := Lexeme.exists_gives_of_mem h ht
  cases hgives with
  | reserved _ _ hreserved => exact hword _ (Kind.mem_of_reserved? hreserved hliteral)
  | name => cases hliteral
  | float hsign hwhole hfraction => exact hnumeral _ (isNumeral_float hsign hwhole hfraction)
  | integer hsign hwhole => exact hnumeral _ (isNumeral_integer hsign hwhole)
  | string => exact absurd rfl hstring
  | symbol =>
    have hnot := forall_symbol (p := fun kind _ => !kind.isLiteral) (by decide) hr
    simp [hliteral] at hnot

/-! ### Values -/

/-- Each item of a list is stated by some of its tokens. -/
theorem mem_of_commaList {α : Type} {item : List (Token Kind) → α → Prop} {ts : List (Token Kind)}
    {as : List α} (h : CommaList item ts as) {a : α} (ha : a ∈ as) :
    ∃ us, us ⊆ ts ∧ item us a := by
  induction h with
  | one hitem =>
    obtain rfl := List.mem_singleton.1 ha
    exact ⟨_, List.Subset.refl _, hitem⟩
  | cons hitem _ _ ih =>
    rcases List.mem_cons.1 ha with rfl | ha
    · exact ⟨_, List.subset_append_left _ _, hitem⟩
    · obtain ⟨us, hus, hitem⟩ := ih ha
      exact ⟨us, fun t ht => by simp [hus ht], hitem⟩

/-- The values of a command are texts of literals. -/
theorem Production.exists_literal {k : Keyword} {body : List (Token Kind)} {command : Command}
    (h : Production k body command) {v : String} (hv : v ∈ command.values) :
    ∃ t ∈ body, t.kind.isLiteral = true ∧ v = t.text := by
  cases h with
  | insert _ _ _ _ hvalues _ =>
    obtain ⟨us, hus, t, rfl, hkind, rfl⟩ := mem_of_commaList hvalues hv
    exact ⟨t, by simp [hus (List.mem_singleton_self t)], hkind, rfl⟩
  | update _ _ hassignments _ _ =>
    obtain ⟨a, ha, rfl⟩ := List.mem_map.1 hv
    obtain ⟨us, hus, c, s, t, rfl, -, -, hkind, rfl⟩ := mem_of_commaList hassignments ha
    exact ⟨t, by simp [hus (by simp : t ∈ [c, s, t])], hkind, rfl⟩
  | _ => simp [Command.values] at hv

section

variable {text : String} {tokens : List (Token Kind)} {command : Command}
  (htokens : statementTokens text = .ok tokens) (h : Command.parse text = .ok command)

include htokens h

/-- What holds of all numerals and of the words that are literals holds of the values of a
statement if it holds of its strings that are among them. -/
theorem of_mem_values {P : String → Prop}
    (hnumeral : ∀ s : List Char, (∀ c ∈ s, isNumeral c = true) → P (String.ofList s))
    (hword : ∀ word ∈ ["NULL", "TRUE", "FALSE"], P word)
    (hstrings : ∀ t ∈ tokens, t.kind = .string → t.text ∈ command.values → P t.text) :
    ∀ v ∈ command.values, P v := by
  intro v hv
  obtain ⟨first, k, body, terminator, rest, htokens', -, hbody, -⟩ := exists_production_of_parse h
  obtain rfl : tokens = first :: body ++ terminator :: rest := by simpa [htokens] using htokens'
  obtain ⟨t, ht, hliteral, rfl⟩ := hbody.exists_literal hv
  have hmem : t ∈ first :: body ++ terminator :: rest := by simp [ht]
  by_cases hstring : t.kind = .string
  · exact hstrings t hmem hstring hv
  · exact of_isLiteral hnumeral hword htokens hmem hliteral hstring

/-- The values of a statement are plain if its strings are that are among them. -/
theorem plain_values
    (hstrings : ∀ t ∈ tokens, t.kind = .string → t.text ∈ command.values → Plain t.text) :
    ∀ v ∈ command.values, Plain v :=
  of_mem_values htokens h (fun _ => plain_of_isNumeral) (by decide) hstrings

/-- The values of a statement can be encoded if its strings can that are among them. -/
theorem encodes_values {e : Text.Encoding}
    (hstrings : ∀ t ∈ tokens, t.kind = .string → t.text ∈ command.values → e.Encodes t.text) :
    ∀ v ∈ command.values, e.Encodes v :=
  of_mem_values htokens h (fun _ => encodes_of_isNumeral)
    (Text.Encoding.forall_encodes_of_isLow (by decide)) hstrings

end

end Tabula
