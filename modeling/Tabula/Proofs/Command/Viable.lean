import Tabula.Proofs.Command.RoundTrip

/-!
# Where a statement can no longer go on

The parser fails at the first token at which no statement can go on: the tokens before it can be
continued to a statement, and no statement begins with them and it. That a parser of commands finds
this token is `Parser.Exact`. There is one rule for each way in which parsers are put together: a
parser that looks at one token and goes on (`OneToken.steps`), a token that may be missing
(`Exact.skip`), a list (`Steps.commaList`), a condition and the end of the statement. Each rule is
given tokens that complete what comes later and puts one in front of them, so at every token there
is one that could stand there instead.
-/

namespace Tabula

/-- Some statement begins with these tokens, wherever they stand in it. -/
def Viable (ts : List (Token Kind)) : Prop :=
  ∃ text tokens command, tokenize text = .ok tokens ∧ Command.parse text = .ok command ∧
    ts.map Token.unplaced <+: tokens.map Token.unplaced

namespace Parser

/-! ### Turns -/

def semicolon : Token Kind := Token.ofSymbol .terminator ";"

/-- Tokens that can be written and of which only the last one is a terminator. -/
inductive Closing : List (Token Kind) → Prop
  | stop : Closing [semicolon]
  | cons {t : Token Kind} {ts : List (Token Kind)} :
      t.Given → t.kind ≠ .terminator → Closing ts → Closing (t :: ts)

/-- The parser reads a command at the front of the tokens. -/
def Takes (p : Parser Command) (ts : List (Token Kind)) : Prop :=
  ∀ last : Token Kind, last.kind = .endOfText → ∃ r, p.run ⟨ts, last⟩ = .ok r

/-- The parser fails on everything that begins with the tokens. -/
def Refuses (p : Parser Command) (ts : List (Token Kind)) : Prop :=
  ∀ rest last, last.kind = .endOfText → ∃ e, p.run ⟨ts ++ rest, last⟩ = .error e

/-- After the tokens `before`, which can still be completed, no command can go on with `k`. -/
structure Turns (p : Parser Command) (before : List (Token Kind)) (k : Token Kind) : Prop where
  unended : ∀ t ∈ before, t.kind ≠ .terminator
  completes : ∃ more, Closing more ∧ Takes p (before ++ more)
  refuses : Refuses p (before ++ [k])

/-- On at most `n` tokens, one of which is a terminator, the parser fails where the turn is. -/
def Pinpoints (n : Nat) (p : Parser Command) : Prop :=
  ∀ ⦃ts last e⦄, ts.length ≤ n → (∃ t ∈ ts, t.kind = .terminator) → last.kind = .endOfText →
    p.run ⟨ts, last⟩ = .error e →
      ∃ before k after, ts = before ++ k :: after ∧ e.position = k.pos ∧ Turns p before k

/-- The parser fails where the turn is, and there are tokens that it reads which begin with one of
kind `k`. -/
structure Exact (n : Nat) (k : Kind) (p : Parser Command) : Prop where
  opens : ∃ t ts, t.kind = k ∧ Closing (t :: ts) ∧ Takes p (t :: ts)
  pinpoints : Pinpoints n p

section Rules

variable {α : Type} {p q : Parser Command} {k k' : Kind} {m n : Nat} {t : Token Kind}
  {before ts : List (Token Kind)}

theorem Pinpoints.mono (h : Pinpoints n p) (hmn : m ≤ n) : Pinpoints m p :=
  fun _ _ _ hlength => h (hlength.trans hmn)

theorem pinpoints_zero (p : Parser Command) : Pinpoints 0 p := by
  intro ts last e hlength hstop
  obtain rfl : ts = [] := List.length_eq_zero_iff.1 (Nat.le_zero.1 hlength)
  simp at hstop

theorem Exact.mono (h : Exact n k p) (hmn : m ≤ n) : Exact m k p :=
  ⟨h.opens, h.pinpoints.mono hmn⟩

theorem Exact.exists_closing (h : Exact n k p) : ∃ more, Closing more ∧ Takes p more := by
  obtain ⟨t, ts, -, hclosing, htakes⟩ := h.opens
  exact ⟨t :: ts, hclosing, htakes⟩

/-- Whether a parser takes tokens is a matter of how it runs on them. -/
theorem Takes.congr {us : List (Token Kind)} (h : Takes q us)
    (hrun : ∀ last, last.kind = .endOfText → p.run ⟨ts, last⟩ = q.run ⟨us, last⟩) : Takes p ts := by
  intro last hlast
  rw [hrun last hlast]
  exact h last hlast

theorem Refuses.congr {us : List (Token Kind)} (h : Refuses q us)
    (hrun : ∀ rest last, last.kind = .endOfText →
      p.run ⟨ts ++ rest, last⟩ = q.run ⟨us ++ rest, last⟩) : Refuses p ts := by
  intro rest last hlast
  rw [hrun rest last hlast]
  exact h rest last hlast

/-- Two parsers that do the same at every cursor have their turns at the same tokens. -/
theorem Exact.congr (h : Exact n k q) (hrun : ∀ c, c.last.kind = .endOfText → p.run c = q.run c) :
    Exact n k p := by
  obtain ⟨t, ts, hkind, hclosing, htakes⟩ := h.opens
  refine ⟨⟨t, ts, hkind, hclosing, htakes.congr fun last => hrun ⟨t :: ts, last⟩⟩, ?_⟩
  intro ts last e hlength hstop hlast he
  rw [hrun _ hlast] at he
  obtain ⟨before, k, after, hts, hpos, hturns⟩ := h.pinpoints hlength hstop hlast he
  obtain ⟨more, hclosing, htakes⟩ := hturns.completes
  exact ⟨before, k, after, hts, hpos, hturns.unended,
    ⟨more, hclosing, htakes.congr fun last => hrun ⟨_, last⟩⟩,
    hturns.refuses.congr fun rest last => hrun ⟨_, last⟩⟩

/-- A parser that passes over its first token has the turns of what is left to do. -/
theorem Turns.cons {k : Token Kind} (h : Turns q before k) (ht : t.kind ≠ .terminator)
    (hrun : ∀ ts last, p.run ⟨t :: ts, last⟩ = q.run ⟨ts, last⟩) : Turns p (t :: before) k := by
  obtain ⟨more, hclosing, htakes⟩ := h.completes
  exact ⟨List.forall_mem_cons.2 ⟨ht, h.unended⟩,
    ⟨more, hclosing, htakes.congr fun last _ => hrun (before ++ more) last⟩,
    h.refuses.congr fun rest last _ => hrun (before ++ [k] ++ rest) last⟩

theorem Pinpoints.cons (h : Pinpoints n q) (ht : t.kind ≠ .terminator)
    (hrun : ∀ ts last, p.run ⟨t :: ts, last⟩ = q.run ⟨ts, last⟩) {last : Token Kind}
    {e : StatementError} (hlength : ts.length ≤ n) (hstop : ∃ u ∈ t :: ts, u.kind = .terminator)
    (hlast : last.kind = .endOfText) (he : p.run ⟨t :: ts, last⟩ = .error e) :
    ∃ before k after, t :: ts = before ++ k :: after ∧ e.position = k.pos ∧ Turns p before k := by
  have hstop' : ∃ u ∈ ts, u.kind = .terminator := by simpa [ht] using hstop
  rw [hrun] at he
  obtain ⟨before, k, after, rfl, hpos, hturns⟩ := h hlength hstop' hlast he
  exact ⟨t :: before, k, after, rfl, hpos, hturns.cons ht hrun⟩

/-- A parser that can be completed and fails at its first token turns there. -/
theorem turns_nil (h : ∃ more, Closing more ∧ Takes p more)
    (hrun : ∀ ts last, ∃ e, p.run ⟨t :: ts, last⟩ = .error e) : Turns p [] t :=
  ⟨nofun, h, fun rest last _ => hrun rest last⟩

/-! ### One token -/

/-- The parser passes over one token or fails at it, and a token of kind `k` can be written that it
passes over. -/
structure OneToken (p : Parser α) (k : Kind) : Prop where
  passes : ∀ t : Token Kind,
    (t.kind ≠ .terminator ∧ ∃ a, ∀ ts last, p.run ⟨t :: ts, last⟩ = .ok (a, ⟨ts, last⟩)) ∨
    ∃ e, e.position = t.pos ∧ ∀ ts last, p.run ⟨t :: ts, last⟩ = .error e
  opens : ∃ t a, t.Given ∧ t.kind = k ∧ t.kind ≠ .terminator ∧
    ∀ ts last, p.run ⟨t :: ts, last⟩ = .ok (a, ⟨ts, last⟩)

/-- What follows the parser is found exactly on `n` tokens, and so is the whole on one more. -/
def Steps (p : Parser α) (k : Kind) : Prop :=
  ∀ ⦃n k'⦄ ⦃f : α → Parser Command⦄, (∀ a, Exact n k' (f a)) → Exact (n + 1) k (p >>= f)

theorem Steps.exact {p : Parser α} {f : α → Parser Command} (h : Steps p k)
    (hf : ∀ a, Exact n k' (f a)) : Exact n k (p >>= f) :=
  (h hf).mono n.le_succ

theorem OneToken.steps {p : Parser α} (h : OneToken p k) : Steps p k := by
  intro n k' f hf
  have hopens : ∃ t ts, t.kind = k ∧ Closing (t :: ts) ∧ Takes (p >>= f) (t :: ts) := by
    obtain ⟨t, a, hgiven, hkind, hnot, hrun⟩ := h.opens
    obtain ⟨more, hclosing, htakes⟩ := (hf a).exists_closing
    exact ⟨t, more, hkind, .cons hgiven hnot hclosing,
      htakes.congr fun last _ => run_bind_of_run (hrun more last) f⟩
  refine ⟨hopens, fun ts last e hlength hstop hlast he => ?_⟩
  cases ts with
  | nil => simp at hstop
  | cons t ts =>
    obtain ⟨hnot, a, hrun⟩ | ⟨e', hpos, hrun⟩ := h.passes t
    · exact (hf a).pinpoints.cons hnot (fun ts last => run_bind_of_run (hrun ts last) f)
        (Nat.le_of_succ_le_succ hlength) hstop hlast he
    · have herror : ∀ ts last, (p >>= f).run ⟨t :: ts, last⟩ = .error e' := by
        intro ts last
        rw [StateT.run_bind, hrun]
        rfl
      obtain rfl : e' = e := by simpa [herror] using he
      obtain ⟨u, us, -, hclosing, htakes⟩ := hopens
      exact ⟨[], t, ts, rfl, hpos,
        turns_nil ⟨_, hclosing, htakes⟩ fun ts last => ⟨e', herror ts last⟩⟩

theorem oneToken_take (hgiven : t.Given) (hkind : t.kind = k) (hk : k ≠ .terminator)
    (wanted : Wanted) : OneToken (take k wanted) k := by
  refine ⟨fun u => ?_, t, t, hgiven, hkind, hkind ▸ hk, fun _ _ => run_take hkind⟩
  by_cases hu : u.kind = k
  · exact .inl ⟨hu ▸ hk, u, fun _ _ => run_take hu⟩
  · exact .inr ⟨.grammar wanted u.pos, rfl, fun _ _ => run_take_of_ne hu⟩

theorem steps_keyword (k : Keyword) (wanted : Wanted) :
    Steps (take (.keyword k) wanted) (.keyword k) :=
  (oneToken_take (Token.given_ofKeyword k) rfl (by nofun) wanted).steps

theorem steps_symbol {symbol : String} (h : Rule.symbol k symbol.toList ∈ rules)
    (hk : k ≠ .terminator) (wanted : Wanted) : Steps (take k wanted) k :=
  (oneToken_take (Token.given_ofSymbol h) rfl hk wanted).steps

theorem steps_name (wanted : Wanted) : Steps (name wanted) .identifier := by
  intro n k' f hf
  have hgiven : (Token.ofName "a").Given := Token.given_ofName (by decide)
  simp only [name, bind_assoc, pure_bind]
  exact (oneToken_take hgiven rfl (by decide) wanted).steps fun t => hf t.text

theorem steps_literal : Steps literal .string := by
  have hrun {t : Token Kind} (ht : t.kind.isLiteral = true) (ts : List (Token Kind))
      (last : Token Kind) : literal.run ⟨t :: ts, last⟩ = .ok (t.text, ⟨ts, last⟩) :=
    accepts_literal ⟨t, rfl, ht, rfl⟩ ts last
  refine OneToken.steps ⟨fun t => ?_, Token.ofValue "", _, Token.given_ofValue (by decide), rfl,
    by decide, hrun rfl⟩
  cases ht : t.kind.isLiteral with
  | true =>
    refine .inl ⟨?_, t.text, hrun ht⟩
    intro hstop
    simp [hstop, Kind.isLiteral] at ht
  | false =>
    exact .inr ⟨.grammar (.literal t.describe) t.pos, rfl, fun _ _ => run_literal_of_eq_false ht⟩

theorem steps_alteration : Steps alteration (.keyword .ADD) := by
  have hadd {t : Token Kind} (ht : t.kind = .keyword .ADD) (ts : List (Token Kind))
      (last : Token Kind) : alteration.run ⟨t :: ts, last⟩ = .ok (.add, ⟨ts, last⟩) :=
    run_skip_bind ht _ _
  refine OneToken.steps ⟨fun t => ?_, Token.ofKeyword .ADD, _, Token.given_ofKeyword _, rfl,
    by decide, hadd rfl⟩
  by_cases ht : t.kind = .keyword .ADD
  · exact .inl ⟨by simp [ht], .add, hadd ht⟩
  by_cases ht' : t.kind = .keyword .DROP
  · refine .inl ⟨by simp [ht'], .drop, fun ts last => ?_⟩
    exact (run_skip_bind_of_ne ht _ _).trans (run_skip_bind ht' _ _)
  · refine .inr ⟨.grammar .alteration t.pos, rfl, fun ts last => ?_⟩
    exact (run_skip_bind_of_ne ht _ _).trans (run_skip_bind_of_ne ht' _ _)

theorem steps_assignment : Steps assignment .identifier := by
  intro n k' f hf
  have hsign : Rule.symbol .assign "=".toList ∈ rules := by simp [rules]
  simp only [assignment, bind_assoc, pure_bind]
  exact steps_name _ fun column => (steps_symbol hsign (by decide) _).exact fun _ =>
    steps_literal.exact fun value => hf (column, value)

/-! ### Tokens that may be missing -/

/-- A token that may be missing is looked for where something else is read in its absence. -/
theorem Exact.skip {s : Kind} (hq : Exact n k q) (hp : Pinpoints n p) (hks : k ≠ s)
    (hs : s ≠ .terminator) :
    Exact n k (skip s >>= fun found => if found = true then p else q) := by
  obtain ⟨x, xs, hx, hclosing, htakes⟩ := hq.opens
  have hopens : Takes (Parser.skip s >>= fun found => if found = true then p else q) (x :: xs) :=
    htakes.congr fun last _ => run_skip_bind_of_ne (hx ▸ hks) p q
  refine ⟨⟨x, xs, hx, hclosing, hopens⟩, fun ts last e hlength hstop hlast he => ?_⟩
  cases ts with
  | nil => simp at hstop
  | cons t ts =>
    by_cases ht : t.kind = s
    · exact hp.cons (ht ▸ hs) (fun ts last => run_skip_bind ht p q)
        ((Nat.le_succ _).trans hlength) hstop hlast he
    · have hrun (ts : List (Token Kind)) (last : Token Kind) :
          (Parser.skip s >>= fun found => if found = true then p else q).run ⟨t :: ts, last⟩ =
            q.run ⟨t :: ts, last⟩ := run_skip_bind_of_ne ht p q
      rw [hrun] at he
      obtain ⟨before, k, after, hts, hpos, hturns⟩ := hq.pinpoints hlength hstop hlast he
      refine ⟨before, k, after, hts, hpos, ?_⟩
      cases before with
      | nil =>
        -- the completion of `q` could begin with what is looked for, the opening does not
        obtain ⟨rfl, rfl⟩ : t = k ∧ ts = after := by simpa using hts
        exact ⟨nofun, ⟨_, hclosing, hopens⟩,
          hturns.refuses.congr fun rest last _ => hrun rest last⟩
      | cons u before =>
        obtain ⟨rfl, -⟩ : t = u ∧ ts = before ++ k :: after := by simpa using hts
        obtain ⟨more, hmore, htakes⟩ := hturns.completes
        exact ⟨hturns.unended, ⟨more, hmore, htakes.congr fun last _ => hrun _ last⟩,
          hturns.refuses.congr fun rest last _ => hrun _ last⟩

/-! ### Lists -/

/-- A list is its first item and, behind a comma, another list. -/
theorem run_commaList_bind {item : Parser α} {P : List (Token Kind) → α → Prop}
    (hitem : Reads item P) (f : List α → Parser Command) {c : Cursor Kind}
    (hlast : c.last.kind = .endOfText) :
    (commaList item >>= f : Parser Command).run c =
      (item >>= fun a => skip .comma >>= fun found =>
        if found = true then commaList item >>= fun as => f (a :: as) else f [a]).run c := by
  have hbind (g : List α → Parser Command) (d : Cursor Kind) :
      (commaList item >>= g : Parser Command).run d =
        (commaList item d >>= fun r => (g r.1).run r.2) := rfl
  rw [hbind, commaList, StateT.run_bind]
  cases hfirst : item.run c with
  | error e =>
    have hfirst' : item c = .error e := hfirst
    rw [hfirst']
    rfl
  | ok result =>
    obtain ⟨a, ahead, last⟩ := result
    have hfirst' : item c = .ok (a, ⟨ahead, last⟩) := hfirst
    obtain ⟨ts, ⟨hahead, hlast'⟩, -⟩ := hitem hlast hfirst
    dsimp only at hahead hlast'
    rw [hfirst', ok_bind]
    cases ahead with
    | nil =>
      have hnot : last.kind ≠ .comma := by simp [hlast', hlast]
      simp [skip, Cursor.isAt, hnot]
    | cons t rest =>
      by_cases ht : t.kind = .comma
      · have hat : (⟨t :: rest, last⟩ : Cursor Kind).isAt .comma = true := by
          simp [Cursor.isAt, ht]
        have hshorter : (⟨t :: rest, last⟩ : Cursor Kind).advance.ahead.length <
            c.ahead.length := by
          rw [hahead]
          simp
          omega
        rw [run_skip_bind ht, hbind]
        simp only [hat, hshorter, if_true, dif_pos]
        rw [Cursor.advance_cons]
        cases commaList item ⟨rest, last⟩ <;> rfl
      · rw [run_skip_bind_of_ne ht]
        simp [Cursor.isAt, ht]

/-- A list is exact in front of what does not begin with a comma. -/
theorem Steps.commaList {item : Parser α} {P : List (Token Kind) → α → Prop} (h : Steps item k)
    (hitem : Reads item P) {f : List α → Parser Command} (hk : k' ≠ .comma)
    (hf : ∀ as, Exact n k' (f as)) : Exact n k (Parser.commaList item >>= f) := by
  induction n generalizing f with
  | zero =>
    refine Exact.congr ?_ fun _ => run_commaList_bind hitem f
    exact h.exact fun a => (hf [a]).skip (pinpoints_zero _) hk (by decide)
  | succ n ih =>
    refine Exact.congr ?_ fun _ => run_commaList_bind hitem f
    -- behind a comma there are at least two tokens less
    have hrest : ∀ a, Exact n k (Parser.commaList item >>= fun as => f (a :: as)) :=
      fun a => ih fun as => (hf (a :: as)).mono n.le_succ
    exact h fun a => ((hf [a]).mono n.le_succ).skip (hrest a).pinpoints hk (by decide)

/-! ### The end of a statement -/

/-- The terminator, behind a command that has been read. -/
def finish (command : Command) : Parser Command :=
  take .terminator .terminator >>= fun _ => pure command

theorem run_finish (ht : t.kind = .terminator) (command : Command) (ts : List (Token Kind))
    (last : Token Kind) : (finish command).run ⟨t :: ts, last⟩ = .ok (command, ⟨ts, last⟩) :=
  run_take_bind ht _

theorem run_finish_of_ne (ht : t.kind ≠ .terminator) (command : Command) (ts : List (Token Kind))
    (last : Token Kind) :
    (finish command).run ⟨t :: ts, last⟩ = .error (.grammar .terminator t.pos) := by
  rw [finish, StateT.run_bind, run_take_of_ne ht]
  rfl

theorem exact_finish (command : Command) : Exact n .terminator (finish command) := by
  have hopens : Takes (finish command) [semicolon] := fun last _ =>
    ⟨_, run_finish rfl command [] last⟩
  refine ⟨⟨semicolon, [], rfl, .stop, hopens⟩, fun ts last e hlength hstop hlast he => ?_⟩
  cases ts with
  | nil => simp at hstop
  | cons t ts =>
    by_cases ht : t.kind = .terminator
    · rw [run_finish ht] at he
      cases he
    · rw [run_finish_of_ne ht] at he
      cases he
      exact ⟨[], t, ts, rfl, rfl,
        turns_nil ⟨_, .stop, hopens⟩ fun ts last => ⟨_, run_finish_of_ne ht command ts last⟩⟩

/-- The first token that is not in a condition. -/
theorem exists_end_of_condition (h : ∃ t ∈ ts, t.kind = .terminator) :
    ∃ before k after, ts = before ++ k :: after ∧ (∀ t ∈ before, inCondition t = true) ∧
      inCondition k = false := by
  obtain ⟨t, ht, hkind⟩ := h
  have hfound : (ts.find? fun u => !inCondition u).isSome :=
    List.find?_isSome.2 ⟨t, ht, by simp [inCondition, hkind]⟩
  obtain ⟨k, hk⟩ := Option.isSome_iff_exists.1 hfound
  obtain ⟨hend, before, after, hts, hbefore⟩ := List.find?_eq_some_iff_append.1 hk
  exact ⟨before, k, after, hts, by simpa using hbefore, by simpa using hend⟩

/-- A condition goes on up to a terminator, so it is refused only if it is empty. -/
theorem exact_condition {f : String → Command} :
    Exact n .identifier (condition >>= fun s => finish (f s)) := by
  have hread {before : List (Token Kind)} {k : Token Kind} (hne : before ≠ [])
      (hbefore : ∀ t ∈ before, inCondition t = true) (hk : inCondition k = false)
      (rest : List (Token Kind)) (last : Token Kind) :
      (condition >>= fun s => finish (f s)).run ⟨before ++ k :: rest, last⟩ =
        (finish (f (" ".intercalate (before.map spelled)))).run ⟨k :: rest, last⟩ :=
    run_bind_of_run (run_condition ⟨hne, hbefore, rfl⟩ hk) _
  have hgiven : (Token.ofName "a").Given := Token.given_ofName (by decide)
  have hend : inCondition semicolon = false := rfl
  have hopens : Takes (condition >>= fun s => finish (f s)) [Token.ofName "a", semicolon] := by
    intro last _
    have hname := hread (List.cons_ne_nil (Token.ofName "a") []) (by decide) hend [] last
    exact ⟨_, hname.trans (run_finish rfl _ [] last)⟩
  have hclosing : Closing [Token.ofName "a", semicolon] := .cons hgiven (by decide) .stop
  refine ⟨⟨_, _, rfl, hclosing, hopens⟩, fun ts last e hlength hstop hlast he => ?_⟩
  obtain ⟨before, k, after, rfl, hbefore, hk⟩ := exists_end_of_condition hstop
  by_cases hnil : before = []
  · subst hnil
    have herror (rest : List (Token Kind)) (last : Token Kind) :
        (condition >>= fun s => finish (f s)).run ⟨k :: rest, last⟩ =
          .error (.grammar (.part "condition after WHERE") k.pos) := by
      have hempty : (k :: rest).takeWhile inCondition = [] :=
        List.takeWhile_cons_of_neg (by simp [hk])
      rw [StateT.run_bind, run_condition_of_eq_nil hempty]
      rfl
    rw [List.nil_append, herror] at he
    cases he
    exact ⟨[], k, after, rfl, rfl, turns_nil ⟨_, hclosing, hopens⟩ fun rest last =>
      ⟨_, herror rest last⟩⟩
  · rw [hread hnil hbefore hk] at he
    by_cases hkind : k.kind = .terminator
    · rw [run_finish hkind] at he
      cases he
    · rw [run_finish_of_ne hkind] at he
      cases he
      refine ⟨before, k, after, rfl, rfl, fun t ht hend => ?_, ⟨[semicolon], .stop, ?_⟩, ?_⟩
      · simpa [inCondition, hend] using hbefore t ht
      · intro last _
        exact ⟨_, (hread hnil hbefore hend [] last).trans (run_finish rfl _ [] last)⟩
      · intro rest last _
        rw [List.append_assoc, List.singleton_append, hread hnil hbefore hk]
        exact ⟨_, run_finish_of_ne hkind _ rest last⟩

/-! ### Commands -/

/-- A name at the end of a command. -/
theorem exact_name {wanted : Wanted} {f : String → Command} :
    Exact n .identifier (name wanted >>= fun s => finish (f s)) :=
  (steps_name wanted).exact fun s => exact_finish (f s)

/-- A list at the end of a command, and the parenthesis that closes it. -/
theorem Steps.closed {item : Parser α} {P : List (Token Kind) → α → Prop} (h : Steps item k)
    (hitem : Reads item P) {wanted : Wanted} {f : List α → Command} :
    Exact n k (Parser.commaList item >>= fun as =>
      take .closeParen wanted >>= fun _ => finish (f as)) := by
  have hclose : Rule.symbol .closeParen ")".toList ∈ rules := by simp [rules]
  exact h.commaList hitem (by decide) fun as =>
    (steps_symbol hclose (by decide) _).exact fun _ => exact_finish (f as)

/-- What follows a choice is done in both cases. -/
theorem ite_bind {β : Type} (b : Bool) (p q : Parser α) (f : α → Parser β) :
    (if b = true then p else q) >>= f = if b = true then p >>= f else q >>= f := by
  cases b <;> rfl

theorem exact_use : Exact n .identifier (use >>= finish) := by
  simp only [use, bind_assoc, pure_bind]
  exact exact_name

theorem exact_create : Exact n (.keyword .TABLE) (create >>= finish) := by
  simp only [create, ite_bind, bind_assoc, pure_bind]
  refine Exact.skip ?_ exact_name.pinpoints (by decide) (by decide)
  exact (steps_keyword _ _).exact fun _ => (steps_name _).exact fun _ =>
    (exact_finish _).skip ((steps_name _).closed (reads_name _)).pinpoints (by decide) (by decide)

theorem exact_drop : Exact n (.keyword .TABLE) (drop >>= finish) := by
  simp only [drop, ite_bind, bind_assoc, pure_bind]
  refine Exact.skip ?_ exact_name.pinpoints (by decide) (by decide)
  exact (steps_keyword _ _).exact fun _ => exact_name

theorem exact_alter : Exact n (.keyword .TABLE) (alter >>= finish) := by
  simp only [alter, bind_assoc, pure_bind]
  exact (steps_keyword _ _).exact fun _ => (steps_name _).exact fun _ =>
    steps_alteration.exact fun _ => exact_name

theorem exact_insert : Exact n (.keyword .INTO) (insert >>= finish) := by
  have hopen : Rule.symbol .openParen "(".toList ∈ rules := by simp [rules]
  simp only [insert, bind_assoc, pure_bind]
  exact (steps_keyword _ _).exact fun _ => (steps_name _).exact fun _ =>
    (steps_keyword _ _).exact fun _ => (steps_symbol hopen (by decide) _).exact fun _ =>
      steps_literal.closed reads_literal

theorem exact_select : Exact n .identifier (select >>= finish) := by
  have hrest {columns : Projection} : Exact n (.keyword .FROM) (do
      let _ ← take (.keyword .FROM) (.keyword .FROM "attribute list")
      let table ← name (.tableName [.FROM])
      let found ← skip (.keyword .WHERE)
      if found = true then
        let s ← condition
        finish (.select table columns (some s))
      else finish (.select table columns none)) :=
    (steps_keyword _ _).exact fun _ => (steps_name _).exact fun _ =>
      (exact_finish _).skip exact_condition.pinpoints (by decide) (by decide)
  simp only [select, projection, ite_bind, bind_assoc, pure_bind]
  exact ((steps_name _).commaList (reads_name _) (by decide) fun _ => hrest).skip
    hrest.pinpoints (by decide) (by decide)

theorem exact_update : Exact n .identifier (update >>= finish) := by
  simp only [update, bind_assoc, pure_bind]
  exact (steps_name _).exact fun _ => (steps_keyword _ _).exact fun _ =>
    steps_assignment.commaList reads_assignment (by decide) fun _ =>
      (steps_keyword _ _).exact fun _ => exact_condition

theorem exact_delete : Exact n (.keyword .FROM) (delete >>= finish) := by
  simp only [delete, bind_assoc, pure_bind]
  exact (steps_keyword _ _).exact fun _ => (steps_name _).exact fun _ =>
    (steps_keyword _ _).exact fun _ => exact_condition

theorem exact_join : Exact n .identifier (join >>= finish) := by
  simp only [join, bind_assoc, pure_bind]
  exact (steps_name _).exact fun _ => (steps_keyword _ _).exact fun _ =>
    (steps_name _).exact fun _ => (steps_keyword _ _).exact fun _ =>
      (steps_name _).exact fun _ => (steps_keyword _ _).exact fun _ => exact_name

/-- What follows the first word of a command is found exactly. -/
theorem exists_exact_body {word : Keyword} (h : body? word = some p) (n : Nat) :
    ∃ k, Exact n k (p >>= finish) := by
  cases word <;> cases h
  · exact ⟨_, exact_use⟩
  · exact ⟨_, exact_create⟩
  · exact ⟨_, exact_drop⟩
  · exact ⟨_, exact_alter⟩
  · exact ⟨_, exact_insert⟩
  · exact ⟨_, exact_select⟩
  · exact ⟨_, exact_update⟩
  · exact ⟨_, exact_delete⟩
  · exact ⟨_, exact_join⟩

/-! ### Statements -/

/-- The shortest statement. -/
def shortest : List (Token Kind) := [Token.ofKeyword .USE, Token.ofName "a", semicolon]

theorem closing_shortest : Closing shortest :=
  .cons (Token.given_ofKeyword .USE) (by decide)
    (.cons (Token.given_ofName (by decide)) (by decide) .stop)

theorem takes_shortest : Takes statement shortest := by
  have hderives : Derives shortest (.use "a") := .intro (by decide) (.use rfl) rfl
  exact fun last _ => ⟨_, run_statement_of_derives hderives [] last⟩

/-- A statement is refused at its first word or where what follows this word has its turn. -/
theorem exists_turn {last : Token Kind} {e : StatementError}
    (hsemicolon : ∀ t ∈ ts, t.kind = .terminator → t.text = ";")
    (hstop : ∃ t ∈ ts, t.kind = .terminator) (hlast : last.kind = .endOfText)
    (he : statement.run ⟨ts, last⟩ = .error e) :
    ∃ before k after, ts = before ++ k :: after ∧ e.position = k.pos ∧
      Turns statement before k := by
  cases ts with
  | nil => simp at hstop
  | cons first ts =>
    by_cases hmem : Text.upper first.text ∈ commandWords
    · obtain ⟨word, p, hword, hp⟩ := mem_commandWords_iff.1 hmem
      have hfirst : first.kind ≠ .terminator := by
        intro hkind
        rw [hsemicolon first (by simp) hkind] at hmem
        exact absurd hmem (by decide)
      obtain ⟨k, hbody⟩ := exists_exact_body hp ts.length
      exact hbody.pinpoints.cons hfirst (run_statement hword hp) le_rfl hstop hlast he
    · rw [run_statement_of_not_mem hmem] at he
      cases he
      exact ⟨[], first, ts, rfl, rfl, turns_nil ⟨shortest, closing_shortest, takes_shortest⟩
        fun ts last => ⟨_, run_statement_of_not_mem hmem ts last⟩⟩

end Rules

namespace Closing

variable {before ts : List (Token Kind)}

theorem append (h : Closing ts) (hbefore : ∀ t ∈ before, t.Given ∧ t.kind ≠ .terminator) :
    Closing (before ++ ts) := by
  induction before with
  | nil => exact h
  | cons t before ih =>
    obtain ⟨⟨hgiven, hnot⟩, hbefore⟩ := List.forall_mem_cons.1 hbefore
    exact .cons hgiven hnot (ih hbefore)

theorem given (h : Closing ts) : ∀ t ∈ ts, t.Given := by
  induction h with
  | stop =>
    have hgiven : semicolon.Given := Token.given_ofSymbol (by simp [rules])
    simpa using hgiven
  | cons ht _ _ ih => exact List.forall_mem_cons.2 ⟨ht, ih⟩

theorem exists_front (h : Closing ts) :
    ∃ front, ts = front ++ [semicolon] ∧ ∀ t ∈ front, t.kind ≠ .terminator := by
  induction h with
  | stop => exact ⟨[], rfl, nofun⟩
  | @cons t _ _ hnot _ ih =>
    obtain ⟨front, rfl, hfront⟩ := ih
    exact ⟨t :: front, rfl, List.forall_mem_cons.2 ⟨hnot, hfront⟩⟩

/-- A statement that ends at its only terminator is read as a whole. -/
theorem exists_derives (h : Closing ts) (htakes : Takes statement ts) :
    ∃ command, Derives ts command := by
  obtain ⟨⟨command, d⟩, hrun⟩ := htakes (endToken "") rfl
  obtain ⟨_, ⟨hahead, -⟩, first, k, body, stop, rfl, hword, hbody, hstop⟩ :=
    reads_statement rfl hrun
  obtain ⟨front, rfl, hfront⟩ := h.exists_front
  have hall : front ++ [semicolon] = first :: body ++ [stop] ++ d.ahead := hahead
  have hnil : d.ahead = [] := by
    rcases List.eq_nil_or_concat d.ahead with hnil | ⟨rest, t, hrest⟩
    · exact hnil
    · rw [hrest, List.concat_eq_append, ← List.append_assoc] at hall
      have hmem : stop ∈ front := by simp [(List.append_inj' hall rfl).1]
      exact absurd hstop (hfront stop hmem)
  rw [hall, hnil, List.append_nil]
  exact ⟨command, .intro (Keyword.ofSpelling?_eq_some_iff.1 hword) hbody hstop⟩

end Closing

end Parser

/-! ### Viable tokens -/

section Text

variable {text : String} {tokens : List (Token Kind)} {command : Command}

theorem Viable.of_append {ts us : List (Token Kind)} (h : Viable (ts ++ us)) : Viable ts := by
  obtain ⟨text, tokens, command, htokens, hparse, hprefix⟩ := h
  rw [List.map_append] at hprefix
  exact ⟨text, tokens, command, htokens, hparse, (List.prefix_append _ _).trans hprefix⟩

/-- Tokens that can be written and that state a command are those of a text. -/
theorem viable_of_derives {ts : List (Token Kind)} (hgiven : ∀ t ∈ ts, t.Given)
    (h : Derives ts command) : Viable ts := by
  have hwrites := Writes.of_given hgiven
  have hparse := hwrites.parse_eq h
  obtain ⟨first, word, body, stop, rest, htokens, -⟩ := exists_production_of_parse hparse
  obtain ⟨tokens, hscan, hplaced⟩ := Layout.exists_scan hwrites 0
  rw [scan_of_statementTokens htokens] at hscan
  obtain rfl : first :: body ++ stop :: rest = tokens := by simpa using hscan
  refine ⟨_, _, command, tokenize_eq_ok_iff.2 ⟨_, htokens, rfl⟩, hparse, ?_⟩
  rw [List.map_append, hplaced, Token.map_token_lexeme]
  exact List.prefix_append _ _

/-- Tokens that the parser refuses, whatever follows them, are not viable. -/
theorem not_viable_of_refuses {ts : List (Token Kind)}
    (h : Parser.Refuses Parser.statement ts) : ¬ Viable ts := by
  rintro ⟨text, tokens, command, htokens, hparse, hprefix⟩
  obtain ⟨first, word, body, stop, rest, hstatement, hword, hbody, hstop⟩ :=
    exists_production_of_parse hparse
  have hderives : Derives (first :: body ++ [stop]) command :=
    .intro (Keyword.ofSpelling?_eq_some_iff.1 hword) hbody hstop
  have hbegins : (first :: body ++ [stop]).map Token.unplaced <+: tokens.map Token.unplaced := by
    obtain ⟨ts, hts, rfl⟩ := tokenize_eq_ok_iff.1 htokens
    obtain rfl : first :: body ++ stop :: rest = ts := by simpa [hstatement] using hts
    simp
  -- a statement that begins with the tokens, or that they begin with, is accepted
  have hrun : ∃ us d, Parser.statement.run ⟨ts ++ us, endToken text⟩ = .ok (command, d) := by
    rcases List.prefix_or_prefix_of_prefix hprefix hbegins with ⟨r, hr⟩ | ⟨r, hr⟩
    · obtain ⟨front, us, hsplit, hfront, -⟩ := List.map_eq_append_iff.1 hr.symm
      have hplaced : (ts ++ us).map Token.unplaced =
          (first :: body ++ [stop]).map Token.unplaced := by
        rw [hsplit, List.map_append, List.map_append, hfront]
      have hread := Parser.run_statement_of_derives (placeFree_derives hplaced hderives) []
        (endToken text)
      rw [List.append_nil] at hread
      exact ⟨us, _, hread⟩
    · obtain ⟨front, us, rfl, hfront, -⟩ := List.map_eq_append_iff.1 hr.symm
      refine ⟨[], ⟨us, endToken text⟩, ?_⟩
      rw [List.append_nil]
      exact Parser.run_statement_of_derives (placeFree_derives hfront hderives) us _
  obtain ⟨us, d, hrun⟩ := hrun
  obtain ⟨e, he⟩ := h us (endToken text) rfl
  rw [hrun] at he
  cases he

/-- A text with tokens that is no statement is refused at the first token at which no statement can
go on: some statement begins with the tokens before it, and none with these and it. No token
before it is a terminator. -/
theorem Command.viable_of_parse_error {e : StatementError} (h : tokenize text = .ok tokens)
    (hparse : Command.parse text = .error e) :
    ∃ before k after, tokens = before ++ k :: after ∧ e.position = k.pos ∧
      (∀ t ∈ before, t.kind ≠ .terminator) ∧ Viable before ∧ ¬ Viable (before ++ [k]) := by
  obtain ⟨ts, hstatement, rfl⟩ := tokenize_eq_ok_iff.1 h
  have hrun : Parser.statement.run ⟨ts, endToken text⟩ = .error e := by
    rw [parse_eq hstatement] at hparse
    cases hrun : Parser.statement.run ⟨ts, endToken text⟩ with
    | error e' => simpa [hrun, Except.map] using hparse
    | ok r => simp [hrun, Except.map] at hparse
  have hstop : ∃ t ∈ ts, t.kind = .terminator := by
    obtain ⟨t, ht⟩ := filter_of_statementTokens hstatement
    have hmem : t ∈ ts.filter (·.kind = .terminator) := by simp [ht]
    exact ⟨t, by simpa using hmem⟩
  obtain ⟨before, k, after, rfl, hpos, hturns⟩ :=
    Parser.exists_turn (fun t => text_of_terminator hstatement) hstop rfl hrun
  refine ⟨before, k, after ++ [endToken text], by simp, hpos, hturns.unended, ?_,
    not_viable_of_refuses hturns.refuses⟩
  obtain ⟨more, hclosing, htakes⟩ := hturns.completes
  have hwhole := hclosing.append fun t ht =>
    ⟨Lexeme.exists_gives_of_mem hstatement (List.mem_append_left _ ht), hturns.unended t ht⟩
  obtain ⟨command, hderives⟩ := hwhole.exists_derives htakes
  exact (viable_of_derives hwhole.given hderives).of_append

/-- A second value without a comma. -/
theorem Command.viable_of_parse_error_insert :
    Command.parse "INSERT INTO t VALUES (1, 2 3);" = .error (.grammar (.closeParen "INSERT") 27) ∧
      ∃ before k after, tokenize "INSERT INTO t VALUES (1, 2 3);" = .ok (before ++ k :: after) ∧
        k.pos = 27 ∧ Viable before ∧ ¬ Viable (before ++ [k]) := by
  have htokens : tokenize "INSERT INTO t VALUES (1, 2 3);" = .ok [⟨.keyword .INSERT, "INSERT", 0⟩,
      ⟨.keyword .INTO, "INTO", 7⟩, ⟨.identifier, "t", 12⟩, ⟨.keyword .VALUES, "VALUES", 14⟩,
      ⟨.openParen, "(", 21⟩, ⟨.integer, "1", 22⟩, ⟨.comma, ",", 23⟩, ⟨.integer, "2", 25⟩,
      ⟨.integer, "3", 27⟩, ⟨.closeParen, ")", 28⟩, ⟨.terminator, ";", 29⟩,
      ⟨.endOfText, "", 30⟩] := by decide +kernel
  have hparse : Command.parse "INSERT INTO t VALUES (1, 2 3);" =
      .error (.grammar (.closeParen "INSERT") 27) := by decide +kernel
  obtain ⟨before, k, after, hsplit, hpos, -, hviable⟩ := viable_of_parse_error htokens hparse
  exact ⟨hparse, before, k, after, by rw [htokens, hsplit], hpos.symm, hviable⟩

end Text

end Tabula
