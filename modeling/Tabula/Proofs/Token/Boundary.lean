import Tabula.Proofs.Token.Cover

/-!
# Where a lexeme ends

A rule takes as much as it can, so a lexeme ends where the text after it does not make it longer
(`Lexeme.EndsBefore`): what a rule gives in front of one text is picked in front of another one
exactly under this condition (`Rule.Gives.picked`, `Lexeme.Picked.endsBefore`). A blank, a comma, a
parenthesis and a semicolon make no lexeme longer. A text that begins with such a character is
`Loose`: where one begins, the text may go on otherwise, and all lexemes in front of it stay
(`Lexeme.Picked.loosen`).
-/

namespace Tabula

/-- Whether a character can make a lexeme in front of it longer. -/
def isJoining (c : Char) : Bool := Lexeme.isWordTail c || Text.isDigit c || c == '.' || c == '='

/-- A text makes no lexeme in front of it longer. -/
def Loose (rest : List Char) : Prop := Stops isJoining rest

/-- The text after a lexeme does not make it longer. -/
def Lexeme.EndsBefore (l : Lexeme) (rest : List Char) : Prop :=
  match l.kind with
  | .identifier | .boolean | .null | .keyword _ => Stops Lexeme.isWordTail rest
  | .float => Stops Text.isDigit rest
  | .integer => Stops Text.isDigit rest ∧ ∀ s, rest = '.' :: s → Stops Text.isDigit s
  | .assign | .less | .greater => Stops (· == '=') rest
  | _ => True

theorem loose_cons {c : Char} (h : isJoining c = false) (s : List Char) : Loose (c :: s) := by
  rintro d ⟨⟩
  exact h

theorem loose_nil : Loose [] := nofun

theorem loose_of_isSkipped {c : Char} (h : isSkipped c = true) (s : List Char) :
    Loose (c :: s) := by
  have hc : c = ' ' ∨ c = '\t' ∨ c = '\r' ∨ c = '\n' := by
    simpa [isSkipped, or_assoc] using h
  refine loose_cons ?_ s
  rcases hc with rfl | rfl | rfl | rfl <;> decide

namespace Lexeme

variable {l : Lexeme} {rest : List Char}

/-! ### Numbers -/

/-- No word starts with a number. -/
theorem word?_number {sign whole : List Char} (hsign : IsSign sign) (hwhole : IsDigits whole)
    (rest : List Char) : word? (sign ++ (whole ++ rest)) = none := by
  rcases hsign with rfl | rfl | rfl
  · obtain ⟨c, whole, rfl⟩ := List.exists_cons_of_ne_nil hwhole.ne_nil
    have hdigit : Text.isDigit c = true := hwhole.digit c (by simp)
    have hletter : c.isAlpha = false := by
      by_contra hc
      have hc : c.isAlpha = true := by simpa using hc
      have hp := forall_isWordTail (p := fun c => !c.isAlpha || !Text.isDigit c) (by decide)
        (by simp [isWordTail, Char.isAlphanum, hc] : isWordTail c = true)
      simp [hc, hdigit] at hp
    simp [word?, hletter]
  · rfl
  · rfl

theorem number?_float {sign whole fraction : List Char} (hsign : IsSign sign)
    (hwhole : IsDigits whole) (hfraction : IsDigits fraction) (hrest : Stops Text.isDigit rest) :
    number? (sign ++ whole ++ '.' :: fraction ++ rest) =
      some ⟨.float, String.ofList (sign ++ whole ++ '.' :: fraction),
        sign ++ whole ++ '.' :: fraction⟩ := by
  rw [number?_eq, float?_eq_some_iff.2 ⟨rest, rfl, .float hsign hwhole hfraction hrest⟩]
  rfl

theorem number?_integer {sign whole : List Char} (hsign : IsSign sign) (hwhole : IsDigits whole)
    (hrest : Stops Text.isDigit rest) (hpoint : ∀ s, rest = '.' :: s → Stops Text.isDigit s) :
    number? (sign ++ whole ++ rest) =
      some ⟨.integer, String.ofList (sign ++ whole), sign ++ whole⟩ := by
  have hcut : (whole ++ rest).takeWhile Text.isDigit = whole :=
    takeWhile_append_of_stops hwhole.digit hrest
  have hdrop : (sign ++ (whole ++ rest)).drop (sign ++ whole).length = rest := by
    rw [← List.append_assoc, List.drop_left]
  rw [List.append_assoc, number?, sign_append hsign hwhole]
  simp only [List.drop_left, hcut, hdrop, List.isEmpty_iff, hwhole.ne_nil, if_false]
  split
  · rename_i s
    have hstop : ([] ++ s).takeWhile Text.isDigit = [] :=
      takeWhile_append_of_stops (by simp) (hpoint s rfl)
    rw [List.nil_append] at hstop
    rw [hstop]
    rfl
  · rfl

/-! ### What is picked -/

theorem picked_of_number? {s : List Char} (hword : word? s = none) (h : number? s = some l) :
    Picked s l := by
  rw [← first?_eq_some_iff, first?, hword, h]
  rfl

/-- Behind what is picked stands no text that would make it longer. -/
theorem Picked.endsBefore (h : Picked (l.source ++ rest) l) : l.EndsBefore rest := by
  obtain ⟨r, hr, rest', heq, hgives⟩ := h.exists_gives
  obtain rfl : rest = rest' := List.append_cancel_left heq
  cases hgives with
  | reserved _ hrest hkind =>
    obtain ⟨k, rfl⟩ | rfl | rfl := Kind.reserved?_cases hkind <;> exact hrest
  | name _ hrest => exact hrest
  | float _ _ _ hrest => exact hrest
  | @integer sign whole _ hsign hwhole hrest =>
    refine ⟨hrest, ?_⟩
    rintro s rfl c hc
    by_contra hdigit
    -- the digits behind the point would make a number with a point, which is tried first
    have hfraction : IsDigits (s.takeWhile Text.isDigit) := by
      refine isDigits_takeWhile ?_
      obtain ⟨s, rfl⟩ := List.head?_eq_some_iff.1 hc
      have hdigit : Text.isDigit c = true := by simpa using hdigit
      simp [hdigit]
    have hfloat := number?_float hsign hwhole hfraction (stops_dropWhile Text.isDigit s)
    have hs : sign ++ whole ++ '.' :: s.takeWhile Text.isDigit ++ s.dropWhile Text.isDigit =
        sign ++ whole ++ '.' :: s := by
      simp
    rw [hs] at hfloat
    have hword : word? (sign ++ whole ++ '.' :: s) = none := by
      rw [List.append_assoc]
      exact word?_number hsign hwhole _
    have hpicked := first?_eq_some_iff.2 (picked_of_number? hword hfloat)
    have hfirst := first?_eq_some_iff.2 h
    rw [hfirst] at hpicked
    cases hpicked
  | string => exact trivial
  | @symbol kind spelling =>
    have hfirst := first?_eq_some_iff.2 h
    have hlone : kind = .assign ∨ kind = .less ∨ kind = .greater → Stops (· == '=') rest := by
      intro hkind c hc
      by_contra hequals
      obtain rfl : c = '=' := by simpa using hequals
      obtain ⟨s, rfl⟩ := List.head?_eq_some_iff.1 hc
      rcases hkind with rfl | rfl | rfl <;>
        simp only [rules, List.mem_cons, Rule.symbol.injEq, reduceCtorEq, List.not_mem_nil,
          false_and, true_and, or_false, false_or] at hr <;>
        subst hr <;> cases hfirst
    cases kind with
    | assign => exact hlone (.inl rfl)
    | less => exact hlone (.inr (.inl rfl))
    | greater => exact hlone (.inr (.inr rfl))
    | identifier | boolean | null | keyword | float | integer =>
      simp [rules] at hr
    | _ => exact trivial

end Lexeme

/-- What a rule gives in front of some text is picked wherever it ends. -/
theorem Rule.Gives.picked {r : Rule} {l : Lexeme} {rest₀ rest : List Char} (h : r.Gives l rest₀)
    (hr : r ∈ rules) (hrest : l.EndsBefore rest) : Lexeme.Picked (l.source ++ rest) l := by
  have hword : ∀ {l : Lexeme}, Rule.word.Gives l rest → Lexeme.Picked (l.source ++ rest) l := by
    intro l hgives
    exact ⟨[], .word, _, rfl, ⟨rest, rfl, hgives⟩, by simp⟩
  cases h with
  | reserved hw _ hkind =>
    refine hword (.reserved hw ?_ hkind)
    obtain ⟨k, rfl⟩ | rfl | rfl := Kind.reserved?_cases hkind <;> exact hrest
  | name hw _ hkind => exact hword (.name hw hrest hkind)
  | float hsign hwhole hfraction =>
    refine Lexeme.picked_of_number? ?_ (Lexeme.number?_float hsign hwhole hfraction hrest)
    simp only [List.append_assoc]
    exact Lexeme.word?_number hsign hwhole _
  | integer hsign hwhole =>
    refine Lexeme.picked_of_number? ?_ (Lexeme.number?_integer hsign hwhole hrest.1 hrest.2)
    rw [List.append_assoc]
    exact Lexeme.word?_number hsign hwhole _
  | @string body _ hbody =>
    have hstring := Lexeme.string?_eq_some_iff.2 ⟨rest, rfl, .string hbody⟩
    rw [← Lexeme.first?_eq_some_iff, Lexeme.first?, hstring]
    rfl
  | @symbol kind spelling =>
    rw [← Lexeme.first?_eq_some_iff]
    cases kind with
    | assign | less | greater =>
      obtain rfl : spelling = _ := by simpa [rules] using hr
      cases rest with
      | nil => rfl
      | cons c s =>
        have hc : c ≠ '=' := by simpa using hrest c rfl
        change Lexeme.symbol? _ = _
        simp [Lexeme.symbol?, hc]
    | identifier | boolean | null | keyword | float | integer | string | endOfText =>
      simp [rules] at hr
    | _ =>
      obtain rfl : spelling = _ := by simpa [rules] using hr
      rfl

/-! ### Texts that may follow any lexeme -/

section Loose

variable {l : Lexeme} {mid x y : List Char}

theorem Stops.append {p : Char → Bool} (h : Stops p (mid ++ x)) (hy : Stops p y) :
    Stops p (mid ++ y) := by
  cases mid with
  | nil => exact hy
  | cons c mid => exact fun d hd => h d hd

theorem Loose.stops (h : Loose y) :
    Stops Lexeme.isWordTail y ∧ Stops Text.isDigit y ∧ Stops (· == '=') y := by
  have hstops : ∀ p : Char → Bool, (∀ c, p c = true → isJoining c = true) → Stops p y := by
    intro p hp c hc
    by_contra hne
    have hjoin := h c hc
    rw [hp c (by simpa using hne)] at hjoin
    cases hjoin
  exact ⟨hstops _ fun c hc => by simp [isJoining, hc], hstops _ fun c hc => by simp [isJoining, hc],
    hstops _ fun c hc => by simp [isJoining, hc]⟩

theorem Loose.ne_point (h : Loose y) (s : List Char) : y ≠ '.' :: s := by
  rintro rfl
  exact absurd (h '.' rfl) (by decide)

theorem Lexeme.endsBefore_of_loose (l : Lexeme) (h : Loose y) : l.EndsBefore y := by
  obtain ⟨hword, hdigit, hequals⟩ := h.stops
  obtain ⟨kind, text, source⟩ := l
  cases kind with
  | identifier | boolean | null | keyword => exact hword
  | float => exact hdigit
  | integer => exact ⟨hdigit, fun s hs => absurd hs (h.ne_point s)⟩
  | assign | less | greater => exact hequals
  | _ => trivial

/-- A lexeme still ends where it did if the text after it is left early for one that makes nothing
longer. -/
theorem Lexeme.EndsBefore.loosen (h : l.EndsBefore (mid ++ x)) (hy : Loose y) :
    l.EndsBefore (mid ++ y) := by
  obtain ⟨hword, hdigit, hequals⟩ := hy.stops
  obtain ⟨kind, text, source⟩ := l
  cases kind with
  | identifier | boolean | null | keyword => exact Stops.append h hword
  | float => exact Stops.append h hdigit
  | integer =>
    refine ⟨h.1.append hdigit, fun s hs => ?_⟩
    cases mid with
    | nil => exact absurd hs (hy.ne_point s)
    | cons c mid =>
      obtain ⟨rfl, rfl⟩ := List.cons.inj hs
      exact (h.2 _ rfl).append hdigit
  | assign | less | greater => exact Stops.append h hequals
  | _ => trivial

/-- What a rule gives is picked in front of a text that makes nothing longer. -/
theorem Rule.Gives.picked_of_loose {r : Rule} {rest : List Char} (h : r.Gives l rest)
    (hr : r ∈ rules) (hy : Loose y) : Lexeme.Picked (l.source ++ y) l :=
  h.picked hr (l.endsBefore_of_loose hy)

theorem Lexeme.Picked.loosen (h : Lexeme.Picked (l.source ++ (mid ++ x)) l) (hy : Loose y) :
    Lexeme.Picked (l.source ++ (mid ++ y)) l := by
  obtain ⟨r, hr, rest, heq, hgives⟩ := h.exists_gives
  exact hgives.picked hr (h.endsBefore.loosen hy)

end Loose

end Tabula
