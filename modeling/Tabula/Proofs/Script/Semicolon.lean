import Mathlib.Data.List.Basic
import Tabula.Proofs.Token.Cover
import Tabula.Script

/-!
# Semicolons outside quotes

A script is cut at its semicolons by counting quotes over the whole of it, and a statement is read
by taking strings off it one at a time. Both see the same semicolons: those at which a piece of a
script ends (`Script.cut_pieces`), and those that the lexer reads as terminators
(`pos_terminators_of_scan`), are the ones with an even number of quotes in front
(`Script.mem_outside_iff`). So a statement of a script has one terminator at most, and no other
statement than the last lacks one (`Script.tokenize_statement`).

## Main definitions

* `Script.quoted` — whether a text ends in quotes.
* `Script.outside` — the offsets of the semicolons outside quotes.
* `Script.Cut` — pieces with one semicolon outside quotes each, but for the last, which has none.
-/

namespace Tabula

namespace Script

/-! ### Inside and outside of quotes -/

/-- Whether a text ends in quotes, if it begins in them or outside. -/
def quoted (inQuotes : Bool) : List Char → Bool
  | [] => inQuotes
  | c :: s => quoted (if c = '\'' then !inQuotes else inQuotes) s

/-- The offsets of the semicolons outside quotes in a text whose first character is at `pos`. -/
def outside (inQuotes : Bool) (pos : Nat) : List Char → List Nat
  | [] => []
  | c :: s =>
    if c = '\'' then outside (!inQuotes) (pos + 1) s
    else if c = ';' && !inQuotes then pos :: outside inQuotes (pos + 1) s
    else outside inQuotes (pos + 1) s

variable {q : Bool} {pos : Nat} {s t : List Char}

theorem quoted_eq_iff : quoted q s = q ↔ s.count '\'' % 2 = 0 := by
  induction s generalizing q with
  | nil => simp [quoted]
  | cons c s ih =>
    by_cases hc : c = '\''
    · have hflip : quoted (!q) s = q ↔ ¬ quoted (!q) s = !q := by
        cases quoted (!q) s <;> cases q <;> simp
      simp only [quoted, hc, if_true, List.count_cons_self]
      rw [hflip, ih]
      omega
    · simpa [quoted, hc] using ih

theorem outside_append (q : Bool) (pos : Nat) (s t : List Char) :
    outside q pos (s ++ t) = outside q pos s ++ outside (quoted q s) (pos + s.length) t := by
  induction s generalizing q pos with
  | nil => rfl
  | cons c s ih =>
    have hpos : pos + (c :: s).length = pos + 1 + s.length := by
      rw [List.length_cons]
      omega
    grind [outside, quoted]

/-- How many semicolons stand outside quotes does not depend on where the text begins. -/
theorem length_outside (q : Bool) (pos pos' : Nat) (s : List Char) :
    (outside q pos s).length = (outside q pos' s).length := by
  induction s generalizing q pos pos' with
  | nil => rfl
  | cons c s ih => grind [outside]

/-- Characters that are neither a quote nor a semicolon. -/
def Unmarked (s : List Char) : Prop := ∀ c ∈ s, c ≠ '\'' ∧ c ≠ ';'

theorem Unmarked.quoted (h : Unmarked s) (q : Bool) : Script.quoted q s = q := by
  rw [quoted_eq_iff, List.count_eq_zero_of_not_mem fun hmem => (h _ hmem).1 rfl]

theorem Unmarked.outside (h : Unmarked s) (q : Bool) (pos : Nat) : Script.outside q pos s = [] := by
  induction s generalizing pos with
  | nil => rfl
  | cons c s ih =>
    have hc := h c (by simp)
    rw [Script.outside, if_neg hc.1, if_neg (by simp [hc.2])]
    exact ih (fun d hd => h d (by simp [hd])) _

theorem Unmarked.outside_append_left (h : Unmarked s) (q : Bool) (pos : Nat) (t : List Char) :
    Script.outside q pos (s ++ t) = Script.outside q (pos + s.length) t := by
  rw [outside_append, h.outside, h.quoted, List.nil_append]

theorem Unmarked.outside_append_right (h : Unmarked t) (q : Bool) (pos : Nat) (s : List Char) :
    Script.outside q pos (s ++ t) = Script.outside q pos s := by
  rw [outside_append, h.outside, List.append_nil]

theorem mem_outside {p : Nat} : p ∈ outside q pos s ↔
    ∃ before after, s = before ++ ';' :: after ∧ quoted q before = false ∧
      p = pos + before.length := by
  constructor
  · intro h
    induction s generalizing q pos with
    | nil => cases h
    | cons c s ih =>
      have hlater {q' : Bool} (hq' : (if c = '\'' then !q else q) = q')
          (h : p ∈ outside q' (pos + 1) s) : ∃ before after, c :: s = before ++ ';' :: after ∧
            quoted q before = false ∧ p = pos + before.length := by
        obtain ⟨before, after, rfl, hquoted, rfl⟩ := ih h
        refine ⟨c :: before, after, rfl, ?_, by simp only [List.length_cons]; omega⟩
        rw [quoted, hq']
        exact hquoted
      rw [outside] at h
      split at h
      · exact hlater (by simp [*]) h
      · split at h
        · rename_i hc
          simp only [Bool.and_eq_true, decide_eq_true_eq, Bool.not_eq_true'] at hc
          rcases List.mem_cons.1 h with rfl | h
          · exact ⟨[], s, by rw [hc.1]; rfl, hc.2, rfl⟩
          · exact hlater (by simp [*]) h
        · exact hlater (by simp [*]) h
  · rintro ⟨before, after, rfl, hquoted, rfl⟩
    rw [outside_append, hquoted]
    exact List.mem_append_right _ (by simp [outside])

/-- A semicolon is outside quotes if the number of quotes in front of it is even. -/
theorem mem_outside_iff {p : Nat} :
    p ∈ outside false 0 s ↔ s[p]? = some ';' ∧ (s.take p).count '\'' % 2 = 0 := by
  rw [mem_outside]
  constructor
  · rintro ⟨before, after, rfl, hquoted, rfl⟩
    simpa using quoted_eq_iff.1 hquoted
  · rintro ⟨hp, heven⟩
    obtain ⟨hlt, hget⟩ := List.getElem?_eq_some_iff.1 hp
    refine ⟨s.take p, s.drop (p + 1), ?_, quoted_eq_iff.2 heven, ?_⟩
    · rw [← hget, List.getElem_cons_drop, List.take_append_drop]
    · rw [List.length_take]
      omega

/-- A semicolon at the end of a text is outside quotes if the number of quotes in it is even. -/
theorem length_mem_outside {body : List Char} (hs : s = body ++ [';'])
    (heven : body.count '\'' % 2 = 0) : body.length ∈ outside false 0 s := by
  rw [mem_outside_iff, hs]
  simpa using heven

/-! ### The pieces of a script -/

/-- Pieces of which the first begins inside or outside of quotes. Each has one semicolon outside
quotes, but for the last, which has none. -/
inductive Cut : Bool → List (List Char) → Prop
  | last {q : Bool} {p : List Char} : outside q 0 p = [] → Cut q [p]
  | cons {q : Bool} {p : List Char} {ps : List (List Char)} :
      (outside q 0 p).length = 1 → Cut false ps → Cut q (p :: ps)

theorem Cut.consFirst {q q' : Bool} {c : Char} {ps : List (List Char)}
    (h : Cut q' ps) (hc : ∀ p, outside q 0 (c :: p) = outside q' 1 p) :
    Cut q (Text.consFirst c ps) := by
  cases h with
  | last hp =>
    refine .last (List.length_eq_zero_iff.1 ?_)
    rw [hc, length_outside q' 1 0, hp]
    rfl
  | cons hp hps =>
    refine .cons ?_ hps
    rw [hc, length_outside q' 1 0, hp]

theorem cut_pieces (q : Bool) (s : List Char) : Cut q (pieces q s) := by
  fun_induction pieces q s with
  | case1 q => exact .last rfl
  | case2 q s ih => exact ih.consFirst fun p => by simp [outside]
  | case3 q c s hc hsemi ih =>
    simp only [Bool.and_eq_true, decide_eq_true_eq, Bool.not_eq_true'] at hsemi
    obtain ⟨rfl, rfl⟩ := hsemi
    exact .cons rfl ih
  | case4 q c s hc hsemi ih => exact ih.consFirst fun p => by simp [outside, hc, hsemi]

theorem length_outside_trim (p : List Char) :
    (outside false 0 (Text.trimEnd (Text.trimStart p))).length = (outside false 0 p).length := by
  have hblank : ∀ {s : List Char}, (∀ c ∈ s, Text.isBlank c = true) → Unmarked s := by
    intro s hs c hc
    constructor
    · rintro rfl
      exact absurd (hs _ hc) (by decide)
    · rintro rfl
      exact absurd (hs _ hc) (by decide)
  have hfront : p = p.takeWhile Text.isBlank ++ Text.trimStart p := by simp [Text.trimStart]
  have hback (s : List Char) :
      s = Text.trimEnd s ++ (s.reverse.takeWhile Text.isBlank).reverse := by
    rw [Text.trimEnd, ← List.reverse_append, List.takeWhile_append_dropWhile, List.reverse_reverse]
  have hplain := hblank (s := p.takeWhile Text.isBlank) (List.all_eq_true.1 List.all_takeWhile)
  have hplain' := hblank (s := ((Text.trimStart p).reverse.takeWhile Text.isBlank).reverse)
    (fun c hc => List.all_eq_true.1 List.all_takeWhile c (List.mem_reverse.1 hc))
  calc (outside false 0 (Text.trimEnd (Text.trimStart p))).length
      = (outside false 0 (Text.trimStart p)).length := by
        conv_rhs => rw [hback (Text.trimStart p), hplain'.outside_append_right]
    _ = (outside false (0 + (p.takeWhile Text.isBlank).length) (Text.trimStart p)).length :=
        length_outside ..
    _ = (outside false 0 p).length := by
        conv_rhs => rw [hfront, hplain.outside_append_left]

/-- A piece that is not blank gives a statement with as many semicolons outside quotes. -/
theorem statementsFrom_cons (offset : Nat) (p : List Char) (ps : List (List Char)) :
    statementsFrom offset (p :: ps) = statementsFrom (offset + p.length) ps ∨
      ∃ s : Statement, (outside false 0 s.text.toList).length = (outside false 0 p).length ∧
        statementsFrom offset (p :: ps) = s :: statementsFrom (offset + p.length) ps := by
  rw [statementsFrom]
  split
  · exact .inl rfl
  · refine .inr ⟨_, ?_, rfl⟩
    rw [String.toList_ofList, length_outside_trim]

/-- A statement of a script has one semicolon outside quotes, or none if it is the last. -/
theorem semicolons_of_mem_statementsFrom {ps : List (List Char)} (h : Cut false ps) (offset : Nat)
    {s : Statement} (hs : s ∈ statementsFrom offset ps) :
    (outside false 0 s.text.toList).length = 1 ∨
      outside false 0 s.text.toList = [] ∧ (statementsFrom offset ps).getLast? = some s := by
  induction ps generalizing offset with
  | nil => cases hs
  | cons p ps ih =>
    cases h with
    | last hp =>
      right
      rcases statementsFrom_cons offset p [] with heq | ⟨s', hlength, heq⟩
      · rw [heq] at hs
        cases hs
      · rw [heq] at hs ⊢
        obtain rfl : s = s' := by simpa [statementsFrom] using hs
        rw [hp, List.length_nil, List.length_eq_zero_iff] at hlength
        exact ⟨hlength, rfl⟩
    | cons hp hps =>
      rcases statementsFrom_cons offset p ps with heq | ⟨s', hlength, heq⟩
      · rw [heq] at hs ⊢
        exact ih hps _ hs
      · rw [heq] at hs ⊢
        rcases List.mem_cons.1 hs with rfl | hs
        · exact .inl (hlength.trans hp)
        · refine (ih hps _ hs).imp id fun hlast => ⟨hlast.1, ?_⟩
          rw [List.getLast?_cons, hlast.2]
          rfl

end Script

/-! ### Terminators -/

open Script

theorem IsWord.unmarked {word : List Char} (h : IsWord word) : Unmarked word := by
  intro c hc
  have hp := forall_isWordTail (p := fun c => c != '\'' && c != ';') (by decide) (h.isWordTail hc)
  simpa using hp

theorem IsDigits.unmarked {digits : List Char} (h : IsDigits digits) : Unmarked digits := by
  intro c hc
  constructor
  · rintro rfl
    exact absurd (h.digit _ hc) (by decide)
  · rintro rfl
    exact absurd (h.digit _ hc) (by decide)

theorem IsSign.unmarked {sign : List Char} (h : IsSign sign) : Unmarked sign := by
  rcases h with rfl | rfl | rfl <;> simp [Unmarked]

theorem Script.Unmarked.append {s t : List Char} (hs : Unmarked s) (ht : Unmarked t) :
    Unmarked (s ++ t) :=
  List.forall_mem_append.2 ⟨hs, ht⟩

/-- A lexeme is a semicolon, or a string, or has neither quotes nor semicolons. -/
theorem Rule.Gives.unmarked {r : Rule} {l : Lexeme} {rest : List Char} (h : r.Gives l rest)
    (hr : r ∈ rules) :
    l.kind = .terminator ∧ l.source = [';'] ∨
    l.kind ≠ .terminator ∧ (∃ body, '\'' ∉ body ∧ l.source = '\'' :: body ++ ['\'']) ∨
    l.kind ≠ .terminator ∧ Unmarked l.source := by
  cases h with
  | reserved hword _ hkind =>
    refine .inr (.inr ⟨?_, hword.unmarked⟩)
    rcases Kind.reserved?_cases hkind with ⟨k, rfl⟩ | rfl | rfl <;> simp
  | name hword => exact .inr (.inr ⟨by simp, hword.unmarked⟩)
  | float hsign hwhole hfraction =>
    have hpoint : Unmarked ['.'] := by simp [Unmarked]
    have hplain := (hsign.unmarked.append hwhole.unmarked).append (hpoint.append hfraction.unmarked)
    exact .inr (.inr ⟨by simp, hplain⟩)
  | integer hsign hwhole => exact .inr (.inr ⟨by simp, hsign.unmarked.append hwhole.unmarked⟩)
  | string hbody => exact .inr (.inl ⟨by simp, _, hbody, rfl⟩)
  | @symbol kind spelling =>
    have hsymbol := forall_symbol (p := fun kind spelling =>
      decide (kind = .terminator ∧ spelling = [';']) ||
        decide (kind ≠ .terminator) && spelling.all fun c => c != '\'' && c != ';') (by decide) hr
    simp only [Bool.or_eq_true, Bool.and_eq_true, decide_eq_true_eq, List.all_eq_true] at hsymbol
    refine hsymbol.imp id fun h => .inr ⟨h.1, fun c hc => ?_⟩
    simpa using h.2 c hc

/-- Between quotes there is no semicolon outside quotes, and behind them the text is outside. -/
theorem Script.outside_string {body : List Char} (h : '\'' ∉ body) (pos : Nat) (rest : List Char) :
    outside false pos ('\'' :: body ++ '\'' :: rest) =
      outside false (pos + ('\'' :: body ++ ['\'']).length) rest := by
  have hbody : ∀ pos, outside true pos (body ++ '\'' :: rest) =
      outside false (pos + body.length + 1) rest := by
    intro pos
    induction body generalizing pos with
    | nil => simp [outside]
    | cons c body ih =>
      simp only [List.mem_cons, not_or] at h
      rw [List.cons_append, outside, if_neg (Ne.symm h.1), if_neg (by simp), ih h.2,
        List.length_cons]
      congr 1
      omega
  rw [List.cons_append, outside, if_pos rfl, Bool.not_false, hbody]
  congr 1
  simp only [List.length_append, List.length_cons, List.length_nil]
  omega

/-- A lexeme holds a semicolon outside quotes if it is a terminator, and ends outside quotes. -/
theorem Lexeme.Picked.outside_eq {s : List Char} {l : Lexeme} (h : Picked s l) (pos : Nat) :
    outside false pos s = (if l.kind = .terminator then [pos] else []) ++
      outside false (pos + l.source.length) (s.drop l.source.length) := by
  obtain ⟨r, hr, rest, rfl, hgives⟩ := h.exists_gives
  rw [List.drop_left]
  rcases hgives.unmarked hr with ⟨hkind, hsource⟩ | ⟨hkind, body, hbody, hsource⟩ | ⟨hkind, hplain⟩
  · rw [if_pos hkind, hsource]
    rfl
  · rw [if_neg hkind, hsource, List.append_assoc]
    exact outside_string hbody pos rest
  · rw [if_neg hkind, hplain.outside_append_left]
    rfl

/-- The lexer reads the semicolons outside quotes as terminators, and no others. -/
theorem pos_terminators_of_scan {pos : Nat} {s : List Char} {tokens : List (Token Kind)}
    (h : scan pos s = .ok tokens) :
    (tokens.filter (·.kind = .terminator)).map (·.pos) = outside false pos s := by
  fun_induction scan pos s generalizing tokens with
  | case1 pos =>
    cases h
    rfl
  | case2 pos c r hskip ih =>
    have hc : c ≠ '\'' ∧ c ≠ ';' := by
      constructor <;> rintro rfl <;> exact absurd hskip (by decide)
    rw [ih h, outside, if_neg hc.1, if_neg (by simp [hc.2])]
  | case3 pos c r hskip hnone => cases h
  | case4 pos c r hskip l hl ih =>
    cases hlater : scan (pos + l.source.length) ((c :: r).drop l.source.length) with
    | error e =>
      rw [hlater] at h
      cases h
    | ok later =>
      rw [hlater] at h
      cases h
      rw [(Lexeme.first?_eq_some_iff.1 hl).outside_eq pos, ← ih hlater]
      by_cases hkind : l.kind = .terminator <;> simp [hkind]

/-- The only terminator of a text that ends in it is the last of its tokens. -/
theorem eq_concat_of_terminator {text body : List Char} {tokens : List (Token Kind)}
    {t : Token Kind} (h : Covers text 0 text.length tokens)
    (htokens : tokens.filter (·.kind = .terminator) = [t]) (htext : text = body ++ [';'])
    (hpos : t.pos = body.length) :
    t.kind = .terminator ∧
      ∃ front, tokens = front ++ [t] ∧ ∀ u ∈ front, u.kind ≠ .terminator := by
  have hmem : t ∈ tokens.filter (·.kind = .terminator) := by simp [htokens]
  obtain ⟨hmem, hkind⟩ := List.mem_filter.1 hmem
  have hkind : t.kind = .terminator := by simpa using hkind
  obtain ⟨front, later, rfl⟩ := List.append_of_mem hmem
  have hlater : later = [] := by
    rw [List.eq_nil_iff_forall_not_mem]
    intro u hu
    have hordered := (List.pairwise_cons.1 (List.pairwise_append.1 h.ordered).2.1).1 u hu
    have hinside := (h.inside u (by simp [hu])).2
    have hwidth := h.width_pos (t := u) (by simp [hu])
    rw [htext, List.length_append, List.length_singleton] at hinside
    omega
  subst hlater
  refine ⟨hkind, front, rfl, fun u hu hu' => ?_⟩
  rw [List.filter_append, List.filter_cons_of_pos (by simp [hkind]), List.filter_nil] at htokens
  have hfront := List.append_left_eq_self.1 htokens
  exact List.filter_eq_nil_iff.1 hfront u hu (by simp [hu'])

namespace Script

/-- A statement of a script that can be read has one terminator, or none if it is the last. -/
theorem terminators_of_mem_statements {script : String} {s : Statement}
    {tokens : List (Token Kind)} (hs : s ∈ statements script)
    (hscan : scan 0 s.text.toList = .ok tokens) :
    (tokens.filter (·.kind = .terminator) = [] ∧ outside false 0 s.text.toList = [] ∧
      (statements script).getLast? = some s) ∨
    ∃ t, tokens.filter (·.kind = .terminator) = [t] ∧
      outside false 0 s.text.toList = [t.pos] := by
  have hpos := pos_terminators_of_scan hscan
  have hlength : (tokens.filter (·.kind = .terminator)).length =
      (outside false 0 s.text.toList).length := by
    rw [← hpos, List.length_map]
  rcases semicolons_of_mem_statementsFrom (cut_pieces false script.toList) 0 hs with
    hone | ⟨hnone, hlast⟩
  · obtain ⟨t, ht⟩ := List.length_eq_one_iff.1 (hlength.trans hone)
    rw [ht] at hpos
    exact .inr ⟨t, ht, hpos.symm⟩
  · rw [hnone] at hlength
    exact .inl ⟨List.length_eq_zero_iff.1 hlength, hnone, hlast⟩

/-- What the splitting of a script and the lexer make of its semicolons. A statement of a script is
never refused for a second terminator. If it ends in a semicolon with an even number of quotes in
front and is read at all, its last token is its only terminator. If it is refused for lack of one,
it is the last statement and all its semicolons are in quotes. -/
theorem tokenize_statement {script : String} {s : Statement} (hs : s ∈ statements script) :
    (∀ pos, tokenize s.text ≠ .error (.secondTerminator pos)) ∧
    (∀ body, s.text.toList = body ++ [';'] → body.count '\'' % 2 = 0 →
      (∃ c pos, tokenize s.text = .error (.unrecognized c pos)) ∨
      ∃ front e, tokenize s.text = .ok (front ++ [e, endToken s.text]) ∧
        e.kind = .terminator ∧ ∀ t ∈ front, t.kind ≠ .terminator) ∧
    ∀ pos, tokenize s.text = .error (.noTerminator pos) →
      (statements script).getLast? = some s ∧
      ∀ p, s.text.toList[p]? = some ';' → (s.text.toList.take p).count '\'' % 2 = 1 := by
  cases hscan : scan 0 s.text.toList with
  | error e =>
    obtain ⟨pos, c, -, rfl, -⟩ := scan_eq_error_iff.1 hscan
    rw [tokenize_of_scan_eq_error hscan]
    exact ⟨nofun, fun _ _ _ => .inl ⟨c, pos, rfl⟩, nofun⟩
  | ok tokens =>
    have htokenize := tokenize_of_scan_eq_ok hscan
    rcases terminators_of_mem_statements hs hscan with ⟨hterminators, hnone, hlast⟩ |
      ⟨t, hterminators, hone⟩
    · rw [hterminators] at htokenize
      rw [htokenize]
      refine ⟨nofun, fun body hbody heven => ?_, fun _ _ => ⟨hlast, fun p hp => ?_⟩⟩
      · have hmem := length_mem_outside hbody heven
        rw [hnone] at hmem
        cases hmem
      · by_contra hodd
        have hmem := mem_outside_iff.2 ⟨hp, by omega⟩
        rw [hnone] at hmem
        cases hmem
    · rw [hterminators] at htokenize
      rw [htokenize]
      refine ⟨nofun, fun body hbody heven => .inr ?_, nofun⟩
      have hmem := length_mem_outside hbody heven
      rw [hone, List.mem_singleton] at hmem
      obtain ⟨hkind, front, rfl, hfront⟩ :=
        eq_concat_of_terminator (scan_eq_ok_iff.1 hscan) hterminators hbody hmem.symm
      exact ⟨front, t, by simp, hkind, hfront⟩

/-- A string goes on over a semicolon, and what is left is a statement without a terminator. -/
theorem tokenize_statement_sample :
    statements "USE d;\n SELECT * FROM t WHERE a == 'x;'" =
      [⟨0, "USE d;"⟩, ⟨8, "SELECT * FROM t WHERE a == 'x;'"⟩] ∧
    (∃ front e, tokenize "USE d;" = .ok (front ++ [e, endToken "USE d;"]) ∧
      e.kind = .terminator ∧ ∀ t ∈ front, t.kind ≠ .terminator) ∧
    tokenize "SELECT * FROM t WHERE a == 'x;'" = .error (.noTerminator 31) ∧
    ∀ p, "SELECT * FROM t WHERE a == 'x;'".toList[p]? = some ';' →
      ("SELECT * FROM t WHERE a == 'x;'".toList.take p).count '\'' % 2 = 1 := by
  have hstatements : statements "USE d;\n SELECT * FROM t WHERE a == 'x;'" =
      [⟨0, "USE d;"⟩, ⟨8, "SELECT * FROM t WHERE a == 'x;'"⟩] := by decide
  have hfirst : (⟨0, "USE d;"⟩ : Statement) ∈
      statements "USE d;\n SELECT * FROM t WHERE a == 'x;'" := by simp [hstatements]
  have hlast : (⟨8, "SELECT * FROM t WHERE a == 'x;'"⟩ : Statement) ∈
      statements "USE d;\n SELECT * FROM t WHERE a == 'x;'" := by simp [hstatements]
  have htokens : ∀ c pos, tokenize "USE d;" ≠ .error (.unrecognized c pos) := by
    have hread : tokenize "USE d;" = .ok [⟨.keyword .USE, "USE", 0⟩, ⟨.identifier, "d", 4⟩,
      ⟨.terminator, ";", 5⟩, ⟨.endOfText, "", 6⟩] := by decide +kernel
    simp [hread]
  have herror : tokenize "SELECT * FROM t WHERE a == 'x;'" = .error (.noTerminator 31) := by
    decide +kernel
  refine ⟨hstatements, ?_, herror, ((tokenize_statement hlast).2.2 31 herror).2⟩
  rcases (tokenize_statement hfirst).2.1 "USE d".toList (by decide) (by decide) with
    ⟨c, pos, h⟩ | h
  · exact absurd h (htokens c pos)
  · exact h

end Script

end Tabula
