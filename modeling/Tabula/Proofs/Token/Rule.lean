import Mathlib.Data.List.Basic
import Tabula.Token.Lexer

/-!
# The rules of the lexer

A rule says how the tokens of one kind are written. A rule that applies takes as much as it can, but
it is the first rule that applies which gives the token (`Lexeme.Picked`), not the one that takes
the most: a number with a point is tried before one without, and a symbol of two characters before
its first character. `Lexeme.first?` is this choice (`Lexeme.first?_eq_some_iff`).

## Main definitions

* `Rule.Gives` — what a rule takes in front of a rest that it leaves.
* `rules` — the rules in order of their priority.
* `Lexeme.Picked` — the lexeme of the first rule that applies.
-/

namespace Tabula

/-- A text has no character of a kind at its start. -/
def Stops (p : Char → Bool) (rest : List Char) : Prop := ∀ c ∈ rest.head?, p c = false

/-- A letter, and then letters, digits and underscores. -/
structure IsWord (word : List Char) : Prop where
  letter : ∃ c ∈ word.head?, c.isAlpha = true
  tail : ∀ c ∈ word.tail, Lexeme.isWordTail c = true

theorem toNat_lt_of_isWordTail {c : Char} (h : Lexeme.isWordTail c = true) : c.toNat < 128 := by
  have hval : c.toNat = c.val.toNat := rfl
  delta Lexeme.isWordTail Char.isAlphanum Char.isAlpha Char.isUpper Char.isLower Char.isDigit at h
  simp only [Bool.or_eq_true, Bool.and_eq_true, decide_eq_true_eq, beq_iff_eq, ge_iff_le,
    UInt32.le_iff_toNat_le] at h
  rcases h with ((⟨-, h⟩ | ⟨-, h⟩) | ⟨-, h⟩) | rfl
  · exact hval ▸ Nat.lt_of_le_of_lt h (by decide)
  · exact hval ▸ Nat.lt_of_le_of_lt h (by decide)
  · exact hval ▸ Nat.lt_of_le_of_lt h (by decide)
  · decide

/-- There are few enough characters of words to look at each. -/
theorem forall_isWordTail {p : Char → Bool}
    (hp : (List.range 128).all
      (fun n => !Lexeme.isWordTail (Char.ofNat n) || p (Char.ofNat n)) = true)
    {c : Char} (hc : Lexeme.isWordTail c = true) : p c = true := by
  have hrange := List.mem_range.2 (toNat_lt_of_isWordTail hc)
  simpa [Char.ofNat_toNat, hc] using List.all_eq_true.1 hp c.toNat hrange

theorem IsWord.isWordTail {word : List Char} (h : IsWord word) {c : Char} (hc : c ∈ word) :
    Lexeme.isWordTail c = true := by
  cases word with
  | nil => cases hc
  | cons d word =>
    rcases List.mem_cons.1 hc with rfl | hc
    · obtain ⟨d, hd, hletter⟩ := h.letter
      cases hd
      simp [Lexeme.isWordTail, Char.isAlphanum, hletter]
    · exact h.tail c hc

/-- A reserved word is a keyword, a truth value or `NULL`. -/
theorem Kind.reserved?_cases {word : String} {kind : Kind}
    (h : Kind.reserved? word = some kind) :
    (∃ k, kind = .keyword k) ∨ kind = .boolean ∨ kind = .null := by
  unfold Kind.reserved? at h
  grind

/-- One digit or more. -/
structure IsDigits (digits : List Char) : Prop where
  ne_nil : digits ≠ []
  digit : ∀ c ∈ digits, Text.isDigit c = true

/-- A sign that a number may have in front. -/
def IsSign (sign : List Char) : Prop := sign = [] ∨ sign = ['+'] ∨ sign = ['-']

inductive Rule
  | word
  | float
  | integer
  | string
  | symbol (kind : Kind) (spelling : List Char)

namespace Rule

/-- A rule takes a lexeme and leaves the rest. -/
inductive Gives : Rule → Lexeme → List Char → Prop
  | reserved {word rest : List Char} {kind : Kind} : IsWord word →
      Stops Lexeme.isWordTail rest →
      Kind.reserved? (String.ofList (word.map Char.toUpper)) = some kind →
      Gives .word ⟨kind, String.ofList (word.map Char.toUpper), word⟩ rest
  | name {word rest : List Char} : IsWord word →
      Stops Lexeme.isWordTail rest →
      Kind.reserved? (String.ofList (word.map Char.toUpper)) = none →
      Gives .word ⟨.identifier, String.ofList word, word⟩ rest
  | float {sign whole fraction rest : List Char} : IsSign sign →
      IsDigits whole → IsDigits fraction → Stops Text.isDigit rest →
      Gives .float ⟨.float, String.ofList (sign ++ whole ++ '.' :: fraction),
        sign ++ whole ++ '.' :: fraction⟩ rest
  | integer {sign whole rest : List Char} : IsSign sign →
      IsDigits whole → Stops Text.isDigit rest →
      Gives .integer ⟨.integer, String.ofList (sign ++ whole), sign ++ whole⟩ rest
  | string {body rest : List Char} : '\'' ∉ body →
      Gives .string ⟨.string, String.ofList body, '\'' :: body ++ ['\'']⟩ rest
  | symbol {kind : Kind} {spelling rest : List Char} :
      Gives (.symbol kind spelling) ⟨kind, String.ofList spelling, spelling⟩ rest

/-- A rule gives a lexeme at the start of a text. -/
def Applies (r : Rule) (s : List Char) (l : Lexeme) : Prop :=
  ∃ rest, s = l.source ++ rest ∧ r.Gives l rest

end Rule

/-- The rules, those first that are tried first. -/
def rules : List Rule :=
  [.word, .float, .integer, .string,
    .symbol .equal ['=', '='], .symbol .notEqual ['!', '='], .symbol .lessEqual ['<', '='],
    .symbol .greaterEqual ['>', '='], .symbol .openParen ['('], .symbol .closeParen [')'],
    .symbol .star ['*'], .symbol .terminator [';'], .symbol .comma [','], .symbol .assign ['='],
    .symbol .less ['<'], .symbol .greater ['>']]

/-- What is true of all symbols. -/
theorem forall_symbol {p : Kind → List Char → Bool}
    (hp : rules.all (fun r => match r with | .symbol kind spelling => p kind spelling | _ => true) =
      true)
    {kind : Kind} {spelling : List Char} (h : Rule.symbol kind spelling ∈ rules) :
    p kind spelling = true :=
  List.all_eq_true.1 hp _ h

/-- The lexeme of the first rule that applies at the start of a text. -/
def Lexeme.Picked (s : List Char) (l : Lexeme) : Prop :=
  ∃ earlier r later, rules = earlier ++ r :: later ∧ r.Applies s l ∧
    ∀ q ∈ earlier, ∀ m, ¬ q.Applies s m

/-! ### Cutting off characters of one kind -/

section Cut

variable {p : Char → Bool} {s front rest : List Char}

theorem stops_dropWhile (p : Char → Bool) (s : List Char) : Stops p (s.dropWhile p) := by
  intro c hc
  have := List.head?_dropWhile_not p s
  rw [Option.mem_def.1 hc] at this
  simpa using this

theorem takeWhile_append_of_stops (hfront : ∀ c ∈ front, p c = true) (hrest : Stops p rest) :
    (front ++ rest).takeWhile p = front := by
  rw [List.takeWhile_append_of_pos hfront]
  cases rest with
  | nil => simp
  | cons c rest => simp [hrest c rfl]

end Cut

/-! ### What each rule reads -/

namespace Lexeme

/-- The sign and all digits after it. -/
def integer? (s : List Char) : Option Lexeme :=
  let whole := (s.drop (sign s).length).takeWhile Text.isDigit
  if whole.isEmpty then none
  else some ⟨.integer, String.ofList (sign s ++ whole), sign s ++ whole⟩

/-- The sign, the digits after it, a point, and the digits after that. -/
def float? (s : List Char) : Option Lexeme :=
  (number? s).filter (·.kind = .float)

end Lexeme

/-- What a rule takes off the start of a text. -/
def Rule.take? : Rule → List Char → Option Lexeme
  | .word, s => Lexeme.word? s
  | .float, s => Lexeme.float? s
  | .integer, s => Lexeme.integer? s
  | .string, s => Lexeme.string? s
  | .symbol kind spelling, s =>
    if spelling.isPrefixOf s then some ⟨kind, String.ofList spelling, spelling⟩ else none

namespace Lexeme

theorem number?_eq (s : List Char) : number? s = (float? s <|> integer? s) := by
  unfold float? number? integer?
  dsimp only
  split
  · rfl
  · split
    · split <;> simp [Option.filter]
    · simp [Option.filter]

theorem symbol?_eq (s : List Char) :
    symbol? s = (rules.drop 4).findSome? (·.take? s) := by
  unfold symbol?
  split <;> simp_all [rules, Rule.take?, List.cons_prefix_iff]

theorem first?_eq (s : List Char) : first? s = rules.findSome? (·.take? s) := by
  have hrules : rules = [.word, .float, .integer, .string] ++ rules.drop 4 := rfl
  rw [hrules, List.findSome?_append, ← symbol?_eq, first?, number?_eq]
  simp only [List.findSome?_cons, Rule.take?, List.findSome?_nil]
  cases word? s <;> cases float? s <;> cases integer? s <;> cases string? s <;> rfl

theorem word?_eq_some_iff {s : List Char} {l : Lexeme} :
    word? s = some l ↔ Rule.word.Applies s l := by
  constructor
  · intro h
    cases s with
    | nil => simp [word?] at h
    | cons c s =>
      simp only [word?, Option.ite_none_right_eq_some, Option.some.injEq] at h
      obtain ⟨hc, rfl⟩ := h
      have hword : IsWord (c :: s.takeWhile isWordTail) := by
        refine ⟨⟨c, rfl, hc⟩, fun d hd => ?_⟩
        exact List.all_eq_true.1 List.all_takeWhile d hd
      refine ⟨s.dropWhile isWordTail, by simp, ?_⟩
      unfold ofWord
      dsimp only
      split
      · exact .reserved hword (stops_dropWhile _ _) ‹_›
      · exact .name hword (stops_dropWhile _ _) ‹_›
  · rintro ⟨rest, rfl, h⟩
    have hread : ∀ word, IsWord word → Stops isWordTail rest →
        word? (word ++ rest) = some (ofWord word) := by
      rintro (_ | ⟨c, word⟩) ⟨⟨d, hd, halpha⟩, htail⟩ hrest
      · cases hd
      · cases hd
        have hcut : (word ++ rest).takeWhile isWordTail = word :=
          takeWhile_append_of_stops htail hrest
        rw [List.cons_append, word?, if_pos halpha, hcut]
    cases h with
    | reserved hword hrest hkind => simp [hread _ hword hrest, ofWord, hkind]
    | name hword hrest hkind => simp [hread _ hword hrest, ofWord, hkind]

theorem isSign_sign (s : List Char) : IsSign (sign s) := by
  unfold sign
  split <;> simp [IsSign]

theorem sign_append_drop (s : List Char) : sign s ++ s.drop (sign s).length = s := by
  unfold sign
  split <;> simp

/-- A sign in front of a digit is the sign of the text. -/
theorem sign_append {sign' whole : List Char} (hsign : IsSign sign') (hwhole : IsDigits whole)
    (rest : List Char) : sign (sign' ++ (whole ++ rest)) = sign' := by
  rcases hsign with rfl | rfl | rfl
  · obtain ⟨c, whole, rfl⟩ := List.exists_cons_of_ne_nil hwhole.ne_nil
    have hc : Text.isDigit c = true := hwhole.digit c (by simp)
    have hplus : c ≠ '+' := fun h => absurd (h ▸ hc) (by decide)
    have hminus : c ≠ '-' := fun h => absurd (h ▸ hc) (by decide)
    unfold sign
    split <;> simp_all
  · rfl
  · rfl

/-- A text is its sign, the digits after it, and what is left. -/
theorem sign_append_takeWhile_append (s : List Char) :
    s = sign s ++ (s.drop (sign s).length).takeWhile Text.isDigit ++
      (s.drop (sign s).length).dropWhile Text.isDigit := by
  rw [List.append_assoc, List.takeWhile_append_dropWhile, sign_append_drop]

theorem drop_sign_append_takeWhile (s : List Char) :
    s.drop (sign s ++ (s.drop (sign s).length).takeWhile Text.isDigit).length =
      (s.drop (sign s).length).dropWhile Text.isDigit := by
  have h := congrArg (List.drop (sign s ++ (s.drop (sign s).length).takeWhile Text.isDigit).length)
    (sign_append_takeWhile_append s)
  rwa [List.drop_left] at h

theorem isDigits_takeWhile {s : List Char} (h : (s.takeWhile Text.isDigit).isEmpty ≠ true) :
    IsDigits (s.takeWhile Text.isDigit) :=
  ⟨mt List.isEmpty_iff.2 h, List.all_eq_true.1 List.all_takeWhile⟩

theorem integer?_eq_some_iff {s : List Char} {l : Lexeme} :
    integer? s = some l ↔ Rule.integer.Applies s l := by
  constructor
  · intro h
    simp only [integer?, Option.ite_none_left_eq_some, Option.some.injEq] at h
    obtain ⟨hwhole, rfl⟩ := h
    exact ⟨_, sign_append_takeWhile_append s,
      .integer (isSign_sign s) (isDigits_takeWhile hwhole) (stops_dropWhile _ _)⟩
  · rintro ⟨rest, rfl, h⟩
    cases h with
    | @integer sign' whole _ hsign hwhole hrest =>
      have hcut : (whole ++ rest).takeWhile Text.isDigit = whole :=
        takeWhile_append_of_stops hwhole.digit hrest
      simp [integer?, sign_append hsign hwhole, hcut, hwhole.ne_nil]

theorem float?_eq_some_iff {s : List Char} {l : Lexeme} :
    float? s = some l ↔ Rule.float.Applies s l := by
  constructor
  · intro h
    have hs := sign_append_takeWhile_append s
    simp only [float?, number?, Option.filter_eq_some_iff] at h
    obtain ⟨h, hkind⟩ := h
    split at h
    · cases h
    rename_i hwhole
    split at h
    · rename_i r hdrop
      split at h
      · cases h
        cases hkind
      rename_i hfraction
      cases h
      have hrest : (s.drop (sign s).length).dropWhile Text.isDigit = '.' :: r := by
        rw [← hdrop, drop_sign_append_takeWhile]
      refine ⟨r.dropWhile Text.isDigit, ?_, .float (isSign_sign s) (isDigits_takeWhile hwhole)
        (isDigits_takeWhile hfraction) (stops_dropWhile _ _)⟩
      rw [hrest] at hs
      simpa using hs
    · cases h
      cases hkind
  · rintro ⟨rest, rfl, h⟩
    cases h with
    | @float sign' whole fraction _ hsign hwhole hfraction hrest =>
      have hpoint : Stops Text.isDigit ('.' :: (fraction ++ rest)) := by
        rintro c ⟨⟩
        decide
      have hcut : (whole ++ '.' :: (fraction ++ rest)).takeWhile Text.isDigit = whole :=
        takeWhile_append_of_stops hwhole.digit hpoint
      have hcut' : (fraction ++ rest).takeWhile Text.isDigit = fraction :=
        takeWhile_append_of_stops hfraction.digit hrest
      simp [float?, number?, sign_append hsign hwhole, hcut, hcut', hwhole.ne_nil,
        hfraction.ne_nil]

theorem string?_eq_some_iff {s : List Char} {l : Lexeme} :
    string? s = some l ↔ Rule.string.Applies s l := by
  constructor
  · intro h
    unfold string? at h
    split at h
    · rename_i s
      simp only [Option.ite_none_right_eq_some, Option.some.injEq] at h
      obtain ⟨hlt, rfl⟩ := h
      have hs : s = s.takeWhile (· ≠ '\'') ++ s.dropWhile (· ≠ '\'') := by simp
      have hbody : '\'' ∉ s.takeWhile (· ≠ '\'') := by
        intro hmem
        simpa using List.all_eq_true.1 List.all_takeWhile _ hmem
      cases hrest : s.dropWhile (· ≠ '\'') with
      | nil =>
        rw [hrest, List.append_nil] at hs
        rw [← hs] at hlt
        omega
      | cons c rest =>
        have hc : c = '\'' := by
          have hstop := stops_dropWhile (· ≠ '\'') s c (hrest ▸ rfl)
          simpa using hstop
        subst hc
        refine ⟨rest, ?_, .string hbody⟩
        rw [hrest] at hs
        simpa using hs
    · cases h
  · rintro ⟨rest, rfl, h⟩
    cases h with
    | @string body _ hbody =>
      have hcut : (body ++ '\'' :: rest).takeWhile (· ≠ '\'') = body := by
        refine takeWhile_append_of_stops (fun c hc => ?_) ?_
        · simpa using ne_of_mem_of_not_mem hc hbody
        · rintro c ⟨⟩
          decide
      simp only [List.cons_append, List.append_assoc, List.nil_append, string?, hcut]
      simp

theorem take?_eq_some_iff (r : Rule) {s : List Char} {l : Lexeme} :
    r.take? s = some l ↔ r.Applies s l := by
  cases r with
  | word => exact word?_eq_some_iff
  | float => exact float?_eq_some_iff
  | integer => exact integer?_eq_some_iff
  | string => exact string?_eq_some_iff
  | symbol kind spelling =>
    simp only [Rule.take?, Option.ite_none_right_eq_some, Option.some.injEq,
      List.isPrefixOf_iff_prefix]
    constructor
    · rintro ⟨⟨rest, rfl⟩, rfl⟩
      exact ⟨rest, rfl, .symbol⟩
    · rintro ⟨rest, rfl, ⟨⟩⟩
      exact ⟨⟨rest, rfl⟩, rfl⟩

/-- The token at the start of a text is the one of the first rule that applies. -/
theorem first?_eq_some_iff {s : List Char} {l : Lexeme} : first? s = some l ↔ Picked s l := by
  rw [first?_eq, List.findSome?_eq_some_iff, Picked]
  simp only [take?_eq_some_iff, Option.eq_none_iff_forall_ne_some, ne_eq]

/-- A point between digits belongs to the number. -/
example : first? ['1', '.', '5', ';'] = some ⟨.float, "1.5", ['1', '.', '5']⟩ := by decide

theorem Picked.exists_gives {s : List Char} {l : Lexeme} (h : Picked s l) :
    ∃ r ∈ rules, ∃ rest, s = l.source ++ rest ∧ r.Gives l rest := by
  obtain ⟨earlier, r, later, hrules, ⟨rest, hs, hgives⟩, -⟩ := h
  exact ⟨r, by simp [hrules], rest, hs, hgives⟩

/-- There is no token at the start of a text if no rule applies. -/
theorem first?_eq_none_iff {s : List Char} :
    first? s = none ↔ ∀ r ∈ rules, ∀ l, ¬ r.Applies s l := by
  rw [first?_eq, List.findSome?_eq_none_iff]
  simp only [Option.eq_none_iff_forall_ne_some, ne_eq, take?_eq_some_iff]

end Lexeme

end Tabula
