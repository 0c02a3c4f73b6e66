import Tabula.Proofs.Command.Value
import Tabula.Proofs.Condition.Cut
import Tabula.Proofs.Condition.Fault

/-!
# Conditions as texts of tokens

The text of a condition is its tokens with a blank between them, strings in quotes again
(`clauseText`). The groups of the text are what stands between an opening and the next closing
parenthesis among the tokens, if no string has a parenthesis (`groupTexts_clauseText`).
-/

namespace Tabula

/-! ### Kinds of tokens in a term -/

namespace Kind

def isWord : Kind → Bool
  | identifier | boolean | null | keyword _ => true
  | _ => false

/-- Whether a token of this kind is an operator of a term. -/
def isOperator : Kind → Bool
  | equal | notEqual | less | lessEqual | greater | greaterEqual | keyword .LIKE => true
  | _ => false

end Kind

/-! ### Tokens as they are spelled -/

theorem IsWord.map_toUpper {word : List Char} (h : IsWord word) :
    IsWord (word.map Char.toUpper) := by
  have hupper : ∀ c ∈ word, Lexeme.isWordTail c.toUpper = true := fun c hc =>
    forall_isWordTail (p := fun c => Lexeme.isWordTail c.toUpper) (by decide) (h.isWordTail hc)
  obtain ⟨c, hc, hletter⟩ := h.letter
  refine ⟨⟨c.toUpper, by simpa using ⟨c, hc, rfl⟩, ?_⟩, fun d hd => ?_⟩
  · have hp := forall_isWordTail (p := fun c => !c.isAlpha || c.toUpper.isAlpha) (by decide)
      (h.isWordTail (List.mem_of_mem_head? hc))
    rw [hletter] at hp
    exact hp
  · obtain ⟨c, hc, rfl⟩ := List.mem_map.1 (List.mem_of_mem_tail hd)
    exact hupper c hc

/-- The capitals of a word are their own capitals. -/
theorem IsWord.map_toUpper_map {word : List Char} (h : IsWord word) :
    (word.map Char.toUpper).map Char.toUpper = word.map Char.toUpper := by
  rw [List.map_map]
  refine List.map_congr_left fun c hc => ?_
  have hp := forall_isWordTail (p := fun c => c.toUpper.toUpper == c.toUpper) (by decide)
    (h.isWordTail hc)
  exact beq_iff_eq.1 hp

namespace Token

/-- A rule of the lexer gives the token. -/
def Given (t : Token Kind) : Prop :=
  ∃ r ∈ rules, ∃ source rest, r.Gives ⟨t.kind, t.text, source⟩ rest

/-- The characters of a token in the text of a condition. -/
def chars (t : Token Kind) : List Char := (Parser.spelled t).toList

/-- What a token can be. -/
inductive Form (t : Token Kind) : Prop
  | word : IsWord t.text.toList → t.chars = t.text.toList →
      t.kind = (Kind.reserved? (String.ofList (t.text.toList.map Char.toUpper))).getD .identifier →
      Form t
  | number : t.kind = .float ∨ t.kind = .integer → t.chars ≠ [] →
      (∀ c ∈ t.chars, isNumeral c = true) → Form t
  | string : t.kind = .string → t.chars = Term.quoted t.text.toList → Form t
  | symbol : t.chars = t.text.toList → Rule.symbol t.kind t.chars ∈ rules → Form t

variable {t : Token Kind}

theorem chars_of_ne_string (h : t.kind ≠ .string) : t.chars = t.text.toList := by
  rw [chars, Parser.spelled, if_neg h]

theorem chars_of_string (h : t.kind = .string) : t.chars = Term.quoted t.text.toList := by
  have hspelled : Parser.spelled t = "'" ++ t.text ++ "'" := by
    rw [Parser.spelled, if_pos h]
    rfl
  simp [chars, hspelled, Term.quoted]

theorem Given.form (h : t.Given) : t.Form := by
  obtain ⟨kind, text, pos⟩ := t
  obtain ⟨r, hr, source, rest, hgives⟩ := h
  dsimp only at hgives
  cases hgives with
  | reserved hword _ hkind =>
    have hstring : kind ≠ .string := by
      obtain ⟨k, rfl⟩ | rfl | rfl := Kind.reserved?_cases hkind <;> simp
    refine .word (by simpa using hword.map_toUpper) (chars_of_ne_string hstring) ?_
    rw [String.toList_ofList, hword.map_toUpper_map, hkind]
    rfl
  | name hword _ hkind =>
    refine .word (by simpa using hword) (chars_of_ne_string (by simp)) ?_
    simp [hkind]
  | float hsign hwhole hfraction =>
    refine .number (by simp) ?_ ?_
    · rw [chars_of_ne_string (by simp)]
      simp
    · rw [chars_of_ne_string (by simp), String.toList_ofList]
      exact isNumeral_float hsign hwhole hfraction
  | integer hsign hwhole =>
    refine .number (by simp) ?_ ?_
    · rw [chars_of_ne_string (by simp)]
      simp [hwhole.ne_nil]
    · rw [chars_of_ne_string (by simp), String.toList_ofList]
      exact isNumeral_integer hsign hwhole
  | string => exact .string rfl (chars_of_string rfl)
  | symbol =>
    have hstring : kind ≠ .string := by
      have hp := forall_symbol (p := fun kind _ => kind != .string) (by decide) hr
      simpa using hp
    refine .symbol (chars_of_ne_string hstring) ?_
    rw [chars_of_ne_string hstring]
    simpa using hr

/-- The kind of a word says whether it is reserved. -/
theorem isWord_of_kind (h : t.kind =
    (Kind.reserved? (String.ofList (t.text.toList.map Char.toUpper))).getD .identifier) :
    t.kind.isWord = true := by
  cases hreserved : Kind.reserved? (String.ofList (t.text.toList.map Char.toUpper)) with
  | none => rw [h, hreserved]; rfl
  | some kind =>
    rw [h, hreserved]
    obtain ⟨k, rfl⟩ | rfl | rfl := Kind.reserved?_cases hreserved <;> rfl

/-- No digit is a blank, in any script. -/
theorem isBlank_of_isNumeral {c : Char} (h : isNumeral c = true) : Text.isBlank c = false := by
  have hranges : Text.zeros.all (fun z => Text.blanks.ranges.all fun r =>
      decide (r.2 < z) || decide (z + 10 ≤ r.1)) = true := by decide
  simp only [List.all_eq_true, Bool.or_eq_true, decide_eq_true_eq] at hranges
  simp only [isNumeral, Bool.or_eq_true, beq_iff_eq] at h
  rcases h with ((h | rfl) | rfl) | rfl
  · simp only [Text.isDigit, Text.digitValue?, Option.isSome_map, List.find?_isSome,
      Bool.and_eq_true, decide_eq_true_eq] at h
    obtain ⟨z, hz, hle, hlt⟩ := h
    rw [Bool.eq_false_iff, Text.isBlank, ne_eq, Text.CharSet.contains_iff]
    rintro ⟨r, hr, hfirst, hlast⟩
    have := hranges z hz r hr
    omega
  · decide
  · decide
  · decide

theorem isNumeral_of_isLetter {c : Char} (h : Text.isLetter c = true) : isNumeral c = false := by
  have hp := Text.forall_isLetter (p := fun c => !isNumeral c) (by decide) (by decide) h
  simpa using hp

theorem isNumeral_of_isColumnStart {c : Char} (h : Term.isColumnStart c = true) :
    isNumeral c = false := by
  simp only [Term.isColumnStart, Bool.or_eq_true, beq_iff_eq] at h
  rcases h with h | rfl
  · exact isNumeral_of_isLetter h
  · decide

theorem isBlank_of_isColumnPart {c : Char} (h : Term.isColumnPart c = true) :
    Text.isBlank c = false := by
  simp only [Term.isColumnPart, Term.isColumnStart, Bool.or_eq_true, beq_iff_eq] at h
  rcases h with (h | rfl) | h
  · exact Term.isBlank_of_isLetter h
  · decide
  · exact isBlank_of_isWordTail (by simp [Lexeme.isWordTail, Char.isAlphanum, h])

/-- A token begins and ends with no blank. -/
theorem Given.stops (h : t.Given) :
    t.chars ≠ [] ∧ Stops Text.isBlank t.chars ∧ Stops Text.isBlank t.chars.reverse := by
  have hall : t.chars ≠ [] → (∀ c ∈ t.chars, Text.isBlank c = false) →
      t.chars ≠ [] ∧ Stops Text.isBlank t.chars ∧ Stops Text.isBlank t.chars.reverse := by
    intro hne hblank
    refine ⟨hne, fun c hc => hblank c (List.mem_of_mem_head? hc), fun c hc => hblank c ?_⟩
    exact List.mem_reverse.1 (List.mem_of_mem_head? hc)
  cases h.form with
  | word hword hchars _ =>
    rw [hchars] at hall ⊢
    obtain ⟨c, hc, -⟩ := hword.letter
    exact hall (List.ne_nil_of_mem (List.mem_of_mem_head? hc)) fun d hd =>
      isBlank_of_isWordTail (hword.isWordTail hd)
  | number _ hne hnumeral => exact hall hne fun c hc => isBlank_of_isNumeral (hnumeral c hc)
  | string _ hchars =>
    rw [hchars]
    refine ⟨by simp [Term.quoted], Term.stops_quoted _, ?_⟩
    rintro c hc
    obtain rfl : '\'' = c := by simpa [Term.quoted] using hc
    decide
  | symbol hchars hsymbol =>
    have hp := forall_symbol (p := fun _ spelling =>
      !spelling.isEmpty && spelling.all fun c => !Text.isBlank c) (by decide) hsymbol
    simp only [Bool.and_eq_true, List.all_eq_true, Bool.not_eq_true', List.isEmpty_eq_false_iff]
      at hp
    exact hall hp.1 hp.2

end Token

/-! ### Texts of tokens -/

/-- The text of a condition with these tokens. -/
def clauseText (ts : List (Token Kind)) : String := " ".intercalate (ts.map Parser.spelled)

/-- The characters of tokens behind another one. -/
def behind (ts : List (Token Kind)) : List Char := ts.flatMap fun t => ' ' :: t.chars

variable {ts us : List (Token Kind)} {t w : Token Kind}

theorem toList_clauseText (t : Token Kind) (ts : List (Token Kind)) :
    (clauseText (t :: ts)).toList = t.chars ++ behind ts := by
  induction ts generalizing t with
  | nil => simp [clauseText, behind, Token.chars]
  | cons u us ih =>
    have hcons : clauseText (t :: u :: us) = Parser.spelled t ++ " " ++ clauseText (u :: us) :=
      String.intercalate_cons_cons
    rw [hcons, String.toList_append, String.toList_append, ih]
    simp [behind, Token.chars]

theorem behind_cons (t : Token Kind) (ts : List (Token Kind)) :
    behind (t :: ts) = ' ' :: (clauseText (t :: ts)).toList := by
  rw [toList_clauseText]
  rfl

theorem Token.Given.toList_clauseText_ne_nil (h : t.Given) (ts : List (Token Kind)) :
    (clauseText (t :: ts)).toList ≠ [] := by
  rw [toList_clauseText]
  exact List.append_ne_nil_of_left_ne_nil h.stops.1 _

theorem stops_append {p : Char → Bool} {a : List Char} (ha : a ≠ []) (hstops : Stops p a)
    (b : List Char) : Stops p (a ++ b) := by
  intro c hc
  rw [List.head?_append_of_ne_nil _ ha] at hc
  exact hstops c hc

/-- A text of tokens begins with no blank. -/
theorem Token.Given.stops_clauseText (h : t.Given) (ts : List (Token Kind)) :
    Stops Text.isBlank (clauseText (t :: ts)).toList := by
  rw [toList_clauseText]
  exact stops_append h.stops.1 h.stops.2.1 _

theorem stops_reverse_append {p : Char → Bool} {a b : List Char} (hb : b ≠ []) :
    Stops p (a ++ b).reverse ↔ Stops p b.reverse := by
  have hhead : (a ++ b).reverse.head? = b.reverse.head? := by
    rw [List.head?_reverse, List.head?_reverse, List.getLast?_append_of_ne_nil _ hb]
  rw [Stops, Stops, hhead]

/-- A text of tokens ends with no blank. -/
theorem stops_reverse_clauseText (hts : ∀ t ∈ ts, t.Given) :
    Stops Text.isBlank (clauseText ts).toList.reverse := by
  induction ts with
  | nil => exact nofun
  | cons t ts ih =>
    have hstops := (hts t (by simp)).stops
    cases ts with
    | nil => simpa [toList_clauseText, behind] using hstops.2.2
    | cons u us =>
      have hlater := ih fun v hv => hts v (by simp [hv])
      have hne := (hts u (by simp)).toList_clauseText_ne_nil us
      have hsplit : (clauseText (t :: u :: us)).toList =
          (t.chars ++ [' ']) ++ (clauseText (u :: us)).toList := by
        rw [toList_clauseText, behind_cons, List.append_assoc]
        rfl
      rw [hsplit, stops_reverse_append hne]
      exact hlater

/-- A text of tokens is not blank. -/
theorem strip_clauseText_ne_empty (hts : ∀ t ∈ ts, t.Given) (hne : ts ≠ []) :
    Text.strip (clauseText ts) ≠ "" := by
  obtain ⟨t, us, rfl⟩ := List.exists_cons_of_ne_nil hne
  have ht := hts t (by simp)
  obtain ⟨c, s, htext⟩ := List.exists_cons_of_ne_nil (ht.toList_clauseText_ne_nil us)
  exact Text.strip_ne_empty (c := c) (by simp [htext])
    (ht.stops_clauseText us c (by rw [htext]; rfl))

/-- A text without blanks does not reach over a token. -/
theorem exists_of_append_eq_append_behind {s v z : List Char} {ts : List (Token Kind)}
    (h : s ++ behind ts = v ++ z) (hv : ∀ c ∈ v, Text.isBlank c = false) :
    ∃ more, s = v ++ more ∧ z = more ++ behind ts := by
  rcases List.append_eq_append_iff.1 h with ⟨extra, rfl, hover⟩ | ⟨more, rfl, rfl⟩
  · cases extra with
    | nil => exact ⟨[], by simp, by simpa using hover.symm⟩
    | cons c extra =>
      cases ts with
      | nil => cases hover
      | cons t ts =>
        obtain ⟨rfl, -⟩ := List.cons.inj hover
        exact absurd (hv ' ' (by simp)) (by decide)
  · exact ⟨more, rfl, rfl⟩

/-- Blanks do not stand where a text begins that begins with none. -/
theorem eq_nil_of_append_eq {s blanks z : List Char} (h : blanks ++ z = s)
    (hblanks : ∀ c ∈ blanks, Text.isBlank c = true) (hs : Stops Text.isBlank s) : blanks = [] := by
  cases blanks with
  | nil => rfl
  | cons c blanks =>
    have hc := hs c (by rw [← h]; rfl)
    rw [hblanks c (by simp)] at hc
    cases hc

/-! ### Groups -/

/-- The tokens between an opening parenthesis and the next closing one. While such tokens are read,
`inside` holds what has been read of them, the last token first. -/
def tokenGroups (inside : Option (List (Token Kind))) :
    List (Token Kind) → List (List (Token Kind))
  | [] => []
  | t :: ts =>
    match inside with
    | none => tokenGroups (if t.kind = .openParen then some [] else none) ts
    | some read =>
      if t.kind = .closeParen then read.reverse :: tokenGroups none ts
      else tokenGroups (some (t :: read)) ts

/-- What is evaluated of a text with groups. -/
def groupTexts (s : List Char) : List String :=
  (Condition.groups none s).map fun g => String.ofList (Text.trim g)

/-- No string among the tokens has a parenthesis. -/
def ParenFree (ts : List (Token Kind)) : Prop :=
  ∀ t ∈ ts, t.kind = .string → '(' ∉ t.text.toList ∧ ')' ∉ t.text.toList

/-- Parentheses are written by the tokens of their kinds alone. -/
theorem Token.Given.paren (h : t.Given)
    (hstring : t.kind = .string → '(' ∉ t.text.toList ∧ ')' ∉ t.text.toList) :
    (t.kind = .openParen ∧ t.chars = ['('] ∨ t.kind ≠ .openParen ∧ '(' ∉ t.chars) ∧
    (t.kind = .closeParen ∧ t.chars = [')'] ∨ t.kind ≠ .closeParen ∧ ')' ∉ t.chars) := by
  cases h.form with
  | word hword hchars hkind =>
    have hisWord := Token.isWord_of_kind hkind
    rw [hchars]
    refine ⟨.inr ⟨?_, fun hmem => ?_⟩, .inr ⟨?_, fun hmem => ?_⟩⟩
    · intro hopen
      rw [hopen] at hisWord
      cases hisWord
    · exact absurd (hword.isWordTail hmem) (by decide)
    · intro hclose
      rw [hclose] at hisWord
      cases hisWord
    · exact absurd (hword.isWordTail hmem) (by decide)
  | number hkind _ hnumeral =>
    refine ⟨.inr ⟨?_, fun hmem => ?_⟩, .inr ⟨?_, fun hmem => ?_⟩⟩
    · rcases hkind with hkind | hkind <;> simp [hkind]
    · exact absurd (hnumeral _ hmem) (by decide)
    · rcases hkind with hkind | hkind <;> simp [hkind]
    · exact absurd (hnumeral _ hmem) (by decide)
  | string hkind hchars =>
    rw [hchars]
    simp [hkind, Term.quoted, hstring hkind]
  | symbol _ hsymbol =>
    have hp := forall_symbol (p := fun kind spelling =>
      (kind == .openParen && spelling == ['('] || kind != .openParen && !spelling.contains '(') &&
      (kind == .closeParen && spelling == [')'] || kind != .closeParen && !spelling.contains ')'))
      (by decide) hsymbol
    simpa using hp

theorem groups_some_append {s : List Char} (hs : ')' ∉ s) (read rest : List Char) :
    Condition.groups (some read) (s ++ rest) =
      Condition.groups (some (s.reverse ++ read)) rest := by
  induction s generalizing read with
  | nil => rfl
  | cons c s ih =>
    simp only [List.mem_cons, not_or] at hs
    rw [List.cons_append, Condition.groups]
    simp only [ne_eq, Ne.symm hs.1, not_false_eq_true, if_true]
    rw [ih hs.2, List.reverse_cons, List.append_assoc]
    rfl

/-- The groups of a text of tokens are those of its tokens, with a blank at both ends. -/
theorem groups_behind (hts : ∀ t ∈ ts, t.Given) (hparen : ParenFree ts) :
    Condition.groups none (behind ts) = (tokenGroups none ts).map (fun g => behind g ++ [' ']) ∧
    ∀ read, Condition.groups (some (behind read.reverse).reverse) (behind ts) =
      (tokenGroups (some read) ts).map fun g => behind g ++ [' '] := by
  induction ts with
  | nil => exact ⟨rfl, fun _ => rfl⟩
  | cons t ts ih =>
    obtain ⟨ihNone, ihSome⟩ := ih (fun u hu => hts u (by simp [hu]))
      fun u hu => hparen u (by simp [hu])
    obtain ⟨hopen, hclose⟩ := (hts t (by simp)).paren (hparen t (by simp))
    have hbehind : behind (t :: ts) = (' ' :: t.chars) ++ behind ts := rfl
    refine ⟨?_, fun read => ?_⟩
    · rw [hbehind]
      rcases hopen with ⟨hkind, hchars⟩ | ⟨hkind, hnot⟩
      · rw [hchars, tokenGroups, if_pos hkind, ← ihSome []]
        simp [Condition.groups, behind]
      · rw [Condition.groups_append (by simpa using hnot), ihNone, tokenGroups, if_neg hkind]
    · rw [hbehind]
      rcases hclose with ⟨hkind, hchars⟩ | ⟨hkind, hnot⟩
      · rw [hchars, tokenGroups]
        simp only [hkind, if_true, List.map_cons, ← ihNone]
        simp [Condition.groups]
      · rw [groups_some_append (by simpa using hnot), tokenGroups]
        simp only [hkind, if_false]
        rw [← ihSome (t :: read)]
        simp [behind]

/-- A group has no tokens but those of the text. -/
theorem mem_of_mem_tokenGroups {inside : Option (List (Token Kind))} {g : List (Token Kind)}
    (h : g ∈ tokenGroups inside ts) : ∀ t ∈ g, t ∈ ts ∨ ∃ read ∈ inside, t ∈ read := by
  fun_induction tokenGroups inside ts with
  | case1 => cases h
  | case2 t ts ih =>
    intro u hu
    rcases ih h u hu with hu | ⟨read, hread, hu⟩
    · exact .inl (List.mem_cons_of_mem t hu)
    · by_cases hkind : t.kind = .openParen
      · rw [if_pos hkind] at hread
        cases hread
        cases hu
      · rw [if_neg hkind] at hread
        cases hread
  | case3 t ts read hkind ih =>
    intro u hu
    rcases List.mem_cons.1 h with rfl | h
    · exact .inr ⟨read, rfl, List.mem_reverse.1 hu⟩
    · rcases ih h u hu with hu | ⟨_, hnone, -⟩
      · exact .inl (List.mem_cons_of_mem t hu)
      · cases hnone
  | case4 t ts read hkind ih =>
    intro u hu
    rcases ih h u hu with hu | ⟨_, hread, hu⟩
    · exact .inl (List.mem_cons_of_mem t hu)
    · cases hread
      rcases List.mem_cons.1 hu with rfl | hu
      · exact .inl List.mem_cons_self
      · exact .inr ⟨read, rfl, hu⟩

theorem given_of_mem_tokenGroups (hts : ∀ t ∈ ts, t.Given) {g : List (Token Kind)}
    (h : g ∈ tokenGroups none ts) : ∀ t ∈ g, t.Given := by
  intro t ht
  rcases mem_of_mem_tokenGroups h t ht with hmem | ⟨_, hnone, -⟩
  · exact hts t hmem
  · cases hnone

theorem trim_behind (hts : ∀ t ∈ ts, t.Given) :
    String.ofList (Text.trim (behind ts ++ [' '])) = clauseText ts := by
  cases ts with
  | nil => decide
  | cons t us =>
    have hstart := (hts t (by simp)).stops_clauseText us
    rw [behind_cons, List.cons_append, Text.trim_padded hstart (stops_reverse_clauseText hts),
      String.ofList_toList]

/-- What is evaluated of a text of tokens are the texts of its groups of tokens. -/
theorem groupTexts_clauseText (hts : ∀ t ∈ ts, t.Given) (hparen : ParenFree ts) :
    groupTexts (clauseText ts).toList = (tokenGroups none ts).map clauseText := by
  have hgroups : Condition.groups none (clauseText ts).toList =
      Condition.groups none (behind ts) := by
    cases ts with
    | nil => rfl
    | cons t us => rw [behind_cons, Condition.groups, if_neg (by decide)]
  rw [groupTexts, hgroups, (groups_behind hts hparen).1, List.map_map]
  exact List.map_congr_left fun g hg => trim_behind (given_of_mem_tokenGroups hts hg)

end Tabula
