import Mathlib.Data.List.Basic
import Tabula.Proofs.Command.Grammar
import Tabula.Proofs.Token.Cover

/-!
# What the parser accepts

A statement is all tokens up to the terminator, this one included. The parser accepts exactly the
statements that a production derives (`Derives`): the grammar is complete as well as sound. A parser
stops at the terminator at the latest, so what follows it has no influence on a result, and neither
on the reason for which a statement is refused (`Parser.Blind`).
-/

namespace Tabula

/-- The words that start a command. -/
def commandWords : List String :=
  ["USE", "CREATE", "DROP", "ALTER", "INSERT", "SELECT", "UPDATE", "DELETE", "JOIN"]

/-- A production derives the tokens after the first word, and the terminator ends them. -/
inductive Derives : List (Token Kind) → Command → Prop
  | intro {first terminator : Token Kind} {k : Keyword} {body : List (Token Kind)}
      {command : Command} : Text.upper first.text = k.spelling → Production k body command →
      terminator.kind = .terminator → Derives (first :: body ++ [terminator]) command

theorem Keyword.ofSpelling?_eq_some_iff {s : String} {k : Keyword} :
    Keyword.ofSpelling? s = some k ↔ s = k.spelling := by
  constructor
  · intro h
    unfold Keyword.ofSpelling? at h
    have hk := List.find?_some h
    exact (of_decide_eq_true hk).symm
  · rintro rfl
    cases k <;> rfl

namespace Parser

variable {α β : Type}

theorem run_condition_of_ne_nil {c : Cursor Kind} (h : c.ahead.takeWhile inCondition ≠ []) :
    condition.run c = .ok (" ".intercalate ((c.ahead.takeWhile inCondition).map spelled),
      { c with ahead := c.ahead.dropWhile inCondition }) := by
  obtain ⟨t, ts, hspan⟩ := List.exists_cons_of_ne_nil h
  unfold condition
  rw [StateT.run_bind, StateT.run_get, pure_bind, hspan]
  rfl

theorem run_condition_of_eq_nil {c : Cursor Kind} (h : c.ahead.takeWhile inCondition = []) :
    condition.run c = (fail (.part "condition after WHERE") : Parser String).run c := by
  unfold condition
  rw [StateT.run_bind, StateT.run_get, pure_bind, h]
  rfl

/-! ### Completeness of the commands -/

section Complete

variable {t next last : Token Kind} {ts rest : List (Token Kind)} {wanted : Wanted}

theorem run_bind_of_run {p : Parser α} {c d : Cursor Kind} {a : α} (h : p.run c = .ok (a, d))
    (f : α → Parser β) : (p >>= f).run c = (f a).run d := by
  rw [StateT.run_bind, h]
  rfl

theorem run_take {k : Kind} (h : t.kind = k) :
    (take k wanted).run ⟨t :: rest, last⟩ = .ok (t, ⟨rest, last⟩) := by
  simp [take, Cursor.expect, h]
  rfl

theorem run_take_of_ne {k : Kind} (h : t.kind ≠ k) :
    (take k wanted).run ⟨t :: rest, last⟩ = .error (.grammar wanted t.pos) := by
  simp [take, Cursor.expect, h]
  rfl

theorem run_take_bind {k : Kind} (h : t.kind = k) (f : Token Kind → Parser β) :
    (take k wanted >>= f).run ⟨t :: rest, last⟩ = (f t).run ⟨rest, last⟩ :=
  run_bind_of_run (run_take h) f

theorem run_name_bind (h : t.kind = .identifier) (f : String → Parser β) :
    (name wanted >>= f).run ⟨t :: rest, last⟩ = (f t.text).run ⟨rest, last⟩ := by
  rw [name, bind_assoc, run_take_bind h, pure_bind]

theorem run_skip_bind {k : Kind} (h : t.kind = k) (p q : Parser β) :
    (skip k >>= fun found => if found = true then p else q).run ⟨t :: rest, last⟩ =
      p.run ⟨rest, last⟩ := by
  simp [skip, Cursor.isAt, h]

theorem run_skip_bind_of_ne {k : Kind} (h : t.kind ≠ k) (p q : Parser β) :
    (skip k >>= fun found => if found = true then p else q).run ⟨t :: rest, last⟩ =
      q.run ⟨t :: rest, last⟩ := by
  simp [skip, Cursor.isAt, h]

/-- A parser reads the tokens that state a result, whatever token follows them. -/
def Accepts (p : Parser α) (states : List (Token Kind) → α → Prop) : Prop :=
  ∀ ⦃ts a⦄, states ts a → ∀ rest last, p.run ⟨ts ++ rest, last⟩ = .ok (a, ⟨rest, last⟩)

theorem accepts_name : Accepts (name wanted) IsIdentifier := by
  rintro _ _ ⟨t, rfl, ht, rfl⟩ rest last
  rw [← bind_pure (name wanted)]
  exact run_name_bind ht pure

theorem accepts_literal : Accepts literal IsLiteral := by
  rintro _ _ ⟨t, rfl, ht, rfl⟩ rest last
  simp [literal, ht]
  rfl

theorem run_literal_of_eq_false (h : t.kind.isLiteral = false) :
    literal.run ⟨t :: rest, last⟩ = .error (.grammar (.literal t.describe) t.pos) := by
  simp [literal, h]
  rfl

theorem accepts_assignment : Accepts assignment IsAssignment := by
  rintro _ _ ⟨column, sign, value, rfl, hcolumn, hsign, hvalue, rfl⟩ rest last
  have hliteral := accepts_literal ⟨value, rfl, hvalue, rfl⟩ rest last
  exact (run_name_bind hcolumn _).trans ((run_take_bind hsign _).trans
    (run_bind_of_run hliteral _))

/-- A list is read to its end where no comma follows. -/
theorem run_commaList {item : Parser α} {P : List (Token Kind) → α → Prop}
    (hitem : Accepts item P) {as : List α} (h : CommaList P ts as) (hnext : next.kind ≠ .comma) :
    commaList item ⟨ts ++ next :: rest, last⟩ = .ok (as, ⟨next :: rest, last⟩) := by
  induction h with
  | @one ts a ha =>
    have hrun : item ⟨ts ++ next :: rest, last⟩ = .ok (a, ⟨next :: rest, last⟩) :=
      hitem ha (next :: rest) last
    rw [commaList, hrun]
    simp [Cursor.isAt, hnext]
  | @cons ts us comma a as ha hcomma _ ih =>
    have hrun : item ⟨ts ++ comma :: us ++ next :: rest, last⟩ =
        .ok (a, ⟨comma :: (us ++ next :: rest), last⟩) := by
      rw [List.append_assoc]
      exact hitem ha (comma :: us ++ next :: rest) last
    have hshorter : (us ++ next :: rest).length < (ts ++ comma :: us ++ next :: rest).length := by
      simp
      omega
    rw [commaList, hrun]
    simp only [Cursor.isAt, Cursor.current_cons, hcomma, decide_true, if_true,
      Cursor.advance_cons, hshorter, dif_pos, ih]

theorem run_condition {s : String} (h : IsCondition ts s) (hstop : inCondition next = false) :
    condition.run ⟨ts ++ next :: rest, last⟩ = .ok (s, ⟨next :: rest, last⟩) := by
  obtain ⟨hne, hall, rfl⟩ := h
  have htake : (ts ++ next :: rest).takeWhile inCondition = ts := by
    rw [List.takeWhile_append_of_pos hall, List.takeWhile_cons_of_neg (by simp [hstop]),
      List.append_nil]
  have hdrop : (ts ++ next :: rest).dropWhile inCondition = next :: rest := by
    rw [List.dropWhile_append_of_pos hall, List.dropWhile_cons_of_neg (by simp [hstop])]
  refine (run_condition_of_ne_nil (by rw [htake]; exact hne)).trans ?_
  dsimp only
  rw [htake, hdrop]

theorem run_projection {columns : Projection} (h : IsProjection ts columns)
    (hnext : next.kind ≠ .comma) :
    projection.run ⟨ts ++ next :: rest, last⟩ = .ok (columns, ⟨next :: rest, last⟩) := by
  cases h with
  | all hstar => exact run_skip_bind hstar _ _
  | @columns ts names hnames =>
    obtain ⟨t, us, rfl, ht⟩ : ∃ t us, ts = t :: us ∧ t.kind = .identifier := by
      cases hnames with
      | one ha =>
        obtain ⟨t, rfl, ht, -⟩ := ha
        exact ⟨t, [], rfl, ht⟩
      | cons ha =>
        obtain ⟨t, rfl, ht, -⟩ := ha
        exact ⟨t, _, rfl, ht⟩
    rw [projection, List.cons_append, run_skip_bind_of_ne (by simp [ht])]
    exact run_bind_of_run (run_commaList accepts_name hnames hnext) _

/-- The parser of a command reads the tokens that a production of it derives. -/
theorem run_body {k : Keyword} {body : List (Token Kind)} {command : Command}
    (h : Production k body command) (hnext : next.kind = .terminator) :
    ∃ p, body? k = some p ∧
      p.run ⟨body ++ next :: rest, last⟩ = .ok (command, ⟨next :: rest, last⟩) := by
  have hstop : inCondition next = false := by simp [inCondition, hnext]
  cases h with
  | use hn => exact ⟨use, rfl, run_name_bind hn _⟩
  | createDatabase hk hn =>
    refine ⟨create, rfl, ?_⟩
    rw [create, List.cons_append, run_skip_bind hk]
    exact run_name_bind hn _
  | createTable hk hn =>
    refine ⟨create, rfl, ?_⟩
    rw [create, List.cons_append, run_skip_bind_of_ne (by simp [hk]), run_take_bind hk,
      List.cons_append, run_name_bind hn, List.nil_append, run_skip_bind_of_ne (by simp [hnext])]
    rfl
  | @createTableWith _ _ _ c _ _ hk hn ho hcolumns hc =>
    refine ⟨create, rfl, ?_⟩
    simp only [List.append_assoc, List.cons_append, List.nil_append]
    have hclose : c.kind ≠ .comma := by simp [hc]
    rw [create, run_skip_bind_of_ne (by simp [hk]), run_take_bind hk, run_name_bind hn,
      run_skip_bind ho, names, run_bind_of_run (run_commaList accepts_name hcolumns hclose),
      run_take_bind hc]
    rfl
  | dropDatabase hk hn =>
    refine ⟨drop, rfl, ?_⟩
    rw [drop, List.cons_append, run_skip_bind hk]
    exact run_name_bind hn _
  | dropTable hk hn =>
    refine ⟨drop, rfl, ?_⟩
    rw [drop, List.cons_append, run_skip_bind_of_ne (by simp [hk]), run_take_bind hk]
    exact run_name_bind hn _
  | alterAdd hk hn ha hc =>
    refine ⟨alter, rfl, ?_⟩
    simp only [List.cons_append, List.nil_append]
    rw [alter, run_take_bind hk, run_name_bind hn, alteration,
      run_bind_of_run (run_skip_bind ha _ _)]
    exact run_name_bind hc _
  | @alterDrop _ _ a _ hk hn ha hc =>
    refine ⟨alter, rfl, ?_⟩
    simp only [List.cons_append, List.nil_append]
    have hadd : a.kind ≠ .keyword .ADD := by simp [ha]
    rw [alter, run_take_bind hk, run_name_bind hn, alteration,
      run_bind_of_run ((run_skip_bind_of_ne hadd _ _).trans (run_skip_bind ha _ _))]
    exact run_name_bind hc _
  | @insert _ _ _ _ c _ _ hi hn hv ho hvalues hc =>
    refine ⟨insert, rfl, ?_⟩
    simp only [List.append_assoc, List.cons_append, List.nil_append]
    have hclose : c.kind ≠ .comma := by simp [hc]
    rw [insert, run_take_bind hi, run_name_bind hn, run_take_bind hv, run_take_bind ho, literals,
      run_bind_of_run (run_commaList accepts_literal hvalues hclose), run_take_bind hc]
    rfl
  | select hcolumns hf hn =>
    refine ⟨select, rfl, ?_⟩
    simp only [List.append_assoc, List.cons_append, List.nil_append]
    rw [select, run_bind_of_run (run_projection hcolumns (by simp [hf])), run_take_bind hf,
      run_name_bind hn, run_skip_bind_of_ne (by simp [hnext])]
    rfl
  | selectWhere hcolumns hf hn hw hcondition =>
    refine ⟨select, rfl, ?_⟩
    simp only [List.append_assoc, List.cons_append]
    rw [select, run_bind_of_run (run_projection hcolumns (by simp [hf])), run_take_bind hf,
      run_name_bind hn, run_skip_bind hw]
    exact run_bind_of_run (run_condition hcondition hstop) _
  | @update _ _ w _ _ _ _ hn hs hassignments hw hcondition =>
    refine ⟨update, rfl, ?_⟩
    simp only [List.append_assoc, List.cons_append]
    have hwhere : w.kind ≠ .comma := by simp [hw]
    rw [update, run_name_bind hn, run_take_bind hs, assignments,
      run_bind_of_run (run_commaList accepts_assignment hassignments hwhere), run_take_bind hw]
    exact run_bind_of_run (run_condition hcondition hstop) _
  | delete hf hn hw hcondition =>
    refine ⟨delete, rfl, ?_⟩
    simp only [List.cons_append]
    rw [delete, run_take_bind hf, run_name_bind hn, run_take_bind hw]
    exact run_bind_of_run (run_condition hcondition hstop) _
  | join hl ha hr ho hla hb hra =>
    refine ⟨join, rfl, ?_⟩
    simp only [List.cons_append, List.nil_append]
    rw [join, run_name_bind hl, run_take_bind ha, run_name_bind hr, run_take_bind ho,
      run_name_bind hla, run_take_bind hb]
    exact run_name_bind hra _

end Complete

/-! ### What stands after the terminator -/

/-- A parser stops at a terminator at the latest: it does the same whatever stands after it, and if
it fails, then for the grammar. -/
def Blind (p : Parser α) : Prop :=
  ∀ (front : List (Token Kind)) (stop : Token Kind), stop.kind = .terminator →
    (∃ wanted pos, ∀ rest last,
      p.run ⟨front ++ stop :: rest, last⟩ = .error (.grammar wanted pos)) ∨
    ∃ a left, ∀ rest last,
      p.run ⟨front ++ stop :: rest, last⟩ = .ok (a, ⟨left ++ stop :: rest, last⟩)

theorem blind_pure (a : α) : Blind (pure a : Parser α) :=
  fun front _ _ => .inr ⟨a, front, fun _ _ => rfl⟩

theorem Blind.bind {p : Parser α} {f : α → Parser β} (hp : Blind p) (hf : ∀ a, Blind (f a)) :
    Blind (p >>= f) := by
  intro front stop hstop
  obtain ⟨wanted, pos, hrun⟩ | ⟨a, left, hrun⟩ := hp front stop hstop
  · refine .inl ⟨wanted, pos, fun rest last => ?_⟩
    rw [StateT.run_bind, hrun]
    rfl
  · simp only [run_bind_of_run (hrun _ _)]
    exact hf a left stop hstop

theorem blind_fail (wanted : Wanted) : Blind (fail wanted : Parser α) := by
  intro front stop _
  cases front with
  | nil => exact .inl ⟨wanted, stop.pos, fun _ _ => rfl⟩
  | cons t ts => exact .inl ⟨wanted, t.pos, fun _ _ => rfl⟩

theorem blind_take {k : Kind} (hk : k ≠ .terminator) (wanted : Wanted) :
    Blind (take k wanted) := by
  intro front stop hstop
  cases front with
  | nil =>
    have hne : stop.kind ≠ k := fun h => hk (h ▸ hstop)
    exact .inl ⟨wanted, stop.pos, fun _ _ => run_take_of_ne hne⟩
  | cons t ts =>
    by_cases ht : t.kind = k
    · exact .inr ⟨t, ts, fun _ _ => run_take ht⟩
    · exact .inl ⟨wanted, t.pos, fun _ _ => run_take_of_ne ht⟩

theorem blind_name (wanted : Wanted) : Blind (name wanted) :=
  (blind_take (by decide) wanted).bind fun t => blind_pure t.text

theorem blind_skip {k : Kind} (hk : k ≠ .terminator) : Blind (skip k) := by
  intro front stop hstop
  cases front with
  | nil =>
    have hne : stop.kind ≠ k := fun h => hk (h ▸ hstop)
    refine .inr ⟨false, [], fun rest last => ?_⟩
    simp [skip, Cursor.isAt, hne]
    rfl
  | cons t ts =>
    by_cases ht : t.kind = k
    · refine .inr ⟨true, ts, fun rest last => ?_⟩
      simp [skip, Cursor.isAt, ht]
      rfl
    · refine .inr ⟨false, t :: ts, fun rest last => ?_⟩
      simp [skip, Cursor.isAt, ht]
      rfl

theorem Blind.ite {p q : Parser α} (hp : Blind p) (hq : Blind q) (b : Bool) :
    Blind (if b = true then p else q) := by
  cases b with
  | false => exact hq
  | true => exact hp

theorem blind_literal : Blind literal := by
  intro front stop hstop
  cases front with
  | nil =>
    have hliteral : stop.kind.isLiteral = false := by simp [hstop, Kind.isLiteral]
    exact .inl ⟨.literal stop.describe, stop.pos, fun _ _ => run_literal_of_eq_false hliteral⟩
  | cons t ts =>
    cases ht : t.kind.isLiteral with
    | true => exact .inr ⟨t.text, ts, fun rest last => accepts_literal ⟨t, rfl, ht, rfl⟩ _ last⟩
    | false => exact .inl ⟨.literal t.describe, t.pos, fun _ _ => run_literal_of_eq_false ht⟩

theorem blind_commaList {item : Parser α} (hitem : Blind item) : Blind (commaList item) := by
  intro front stop hstop
  change (∃ wanted pos, ∀ rest last,
      commaList item ⟨front ++ stop :: rest, last⟩ = .error (.grammar wanted pos)) ∨
    ∃ as left, ∀ rest last,
      commaList item ⟨front ++ stop :: rest, last⟩ = .ok (as, ⟨left ++ stop :: rest, last⟩)
  induction hn : front.length using Nat.strongRecOn generalizing front with
  | ind n ih =>
    subst hn
    obtain ⟨wanted, pos, hrun⟩ | ⟨a, left, hrun⟩ := hitem front stop hstop
    · have hfirst : ∀ rest last,
          item ⟨front ++ stop :: rest, last⟩ = .error (.grammar wanted pos) :=
        hrun
      refine .inl ⟨wanted, pos, fun rest last => ?_⟩
      rw [commaList, hfirst]
    have hfirst : ∀ rest last,
        item ⟨front ++ stop :: rest, last⟩ = .ok (a, ⟨left ++ stop :: rest, last⟩) := hrun
    cases left with
    | nil =>
      refine .inr ⟨[a], [], fun rest last => ?_⟩
      rw [commaList, hfirst]
      simp [Cursor.isAt, hstop]
    | cons t us =>
      by_cases ht : t.kind = .comma ∧ us.length < front.length
      · obtain ⟨hcomma, hlt⟩ := ht
        obtain ⟨wanted, pos, hrest⟩ | ⟨as, left, hrest⟩ := ih us.length hlt us rfl
        · refine .inl ⟨wanted, pos, fun rest last => ?_⟩
          rw [commaList, hfirst]
          simp [Cursor.isAt, hcomma, hlt, hrest]
        · refine .inr ⟨a :: as, left, fun rest last => ?_⟩
          rw [commaList, hfirst]
          simp [Cursor.isAt, hcomma, hlt, hrest]
      · refine .inr ⟨[a], t :: us, fun rest last => ?_⟩
        rw [commaList, hfirst]
        by_cases hcomma : t.kind = .comma
        · have hle : ¬ us.length < front.length := fun hlt => ht ⟨hcomma, hlt⟩
          simp [Cursor.isAt, hcomma, hle]
        · simp [Cursor.isAt, hcomma]

theorem blind_condition : Blind condition := by
  intro front stop hstop
  have hnot : inCondition stop = false := by simp [inCondition, hstop]
  have hspan (rest : List (Token Kind)) :
      (front ++ stop :: rest).takeWhile inCondition = front.takeWhile inCondition ∧
      (front ++ stop :: rest).dropWhile inCondition =
        front.dropWhile inCondition ++ stop :: rest := by
    induction front with
    | nil => simp [hnot]
    | cons t ts ih =>
      cases ht : inCondition t <;> simp [ht, ih]
  by_cases hnil : front.takeWhile inCondition = []
  · have hfail (rest : List (Token Kind)) (last : Token Kind) :
        condition.run ⟨front ++ stop :: rest, last⟩ =
          (fail (.part "condition after WHERE") : Parser String).run
            ⟨front ++ stop :: rest, last⟩ :=
      run_condition_of_eq_nil ((hspan rest).1.trans hnil)
    simp only [hfail]
    exact blind_fail _ front stop hstop
  · refine .inr ⟨" ".intercalate ((front.takeWhile inCondition).map spelled),
      front.dropWhile inCondition, fun rest last => ?_⟩
    obtain ⟨htake, hdrop⟩ := hspan rest
    refine (run_condition_of_ne_nil (by rw [htake]; exact hnil)).trans ?_
    dsimp only
    rw [htake, hdrop]

theorem blind_projection : Blind projection :=
  (blind_skip (by decide)).bind fun found =>
    (blind_pure _).ite ((blind_commaList (blind_name _)).bind fun _ => blind_pure _) found

theorem blind_alteration : Blind alteration := by
  refine (blind_skip (by decide)).bind fun found => (blind_pure _).ite ?_ found
  exact (blind_skip (by decide)).bind fun found => (blind_pure _).ite (blind_fail _) found

theorem blind_body {k : Keyword} {p : Parser Command} (h : body? k = some p) : Blind p := by
  have htake {k : Keyword} (wanted : Wanted) {f : Token Kind → Parser Command}
      (hf : ∀ t, Blind (f t)) : Blind (take (.keyword k) wanted >>= f) :=
    (blind_take (by simp) wanted).bind hf
  have hname {γ : Type} (wanted : Wanted) {f : String → Parser γ} (hf : ∀ s, Blind (f s)) :
      Blind (name wanted >>= f) :=
    (blind_name wanted).bind hf
  cases k with
  | USE =>
    cases h
    exact hname _ fun _ => blind_pure _
  | CREATE =>
    cases h
    refine (blind_skip (by decide)).bind fun found => Blind.ite ?_ ?_ found
    · exact hname _ fun _ => blind_pure _
    · refine htake _ fun _ => hname _ fun _ => ?_
      refine (blind_skip (by decide)).bind fun found => Blind.ite ?_ (blind_pure _) found
      refine (blind_commaList (blind_name _)).bind fun _ => ?_
      exact (blind_take (by decide) _).bind fun _ => blind_pure _
  | DROP =>
    cases h
    refine (blind_skip (by decide)).bind fun found => Blind.ite ?_ ?_ found
    · exact hname _ fun _ => blind_pure _
    · exact htake _ fun _ => hname _ fun _ => blind_pure _
  | ALTER =>
    cases h
    refine htake _ fun _ => hname _ fun _ => blind_alteration.bind fun _ => ?_
    exact hname _ fun _ => blind_pure _
  | INSERT =>
    cases h
    refine htake _ fun _ => hname _ fun _ => htake _ fun _ => ?_
    refine (blind_take (by decide) _).bind fun _ => ?_
    refine (blind_commaList blind_literal).bind fun _ => ?_
    exact (blind_take (by decide) _).bind fun _ => blind_pure _
  | SELECT =>
    cases h
    refine blind_projection.bind fun _ => htake _ fun _ => hname _ fun _ => ?_
    refine (blind_skip (by decide)).bind fun found => Blind.ite ?_ (blind_pure _) found
    exact blind_condition.bind fun _ => blind_pure _
  | UPDATE =>
    cases h
    refine hname _ fun _ => htake _ fun _ => (blind_commaList ?_).bind fun _ => ?_
    · refine hname _ fun _ => (blind_take (by decide) _).bind fun _ => ?_
      exact blind_literal.bind fun _ => blind_pure _
    · exact htake _ fun _ => blind_condition.bind fun _ => blind_pure _
  | DELETE =>
    cases h
    refine htake _ fun _ => hname _ fun _ => htake _ fun _ => ?_
    exact blind_condition.bind fun _ => blind_pure _
  | JOIN =>
    cases h
    refine hname _ fun _ => htake _ fun _ => hname _ fun _ => htake _ fun _ => ?_
    exact hname _ fun _ => htake _ fun _ => hname _ fun _ => blind_pure _
  | _ => cases h

/-! ### Statements -/

theorem mem_commandWords_iff {s : String} :
    s ∈ commandWords ↔ ∃ k p, s = k.spelling ∧ body? k = some p := by
  constructor
  · intro h
    simp only [commandWords, List.mem_cons, List.not_mem_nil, or_false] at h
    rcases h with rfl | rfl | rfl | rfl | rfl | rfl | rfl | rfl | rfl
    · exact ⟨.USE, use, rfl, rfl⟩
    · exact ⟨.CREATE, create, rfl, rfl⟩
    · exact ⟨.DROP, drop, rfl, rfl⟩
    · exact ⟨.ALTER, alter, rfl, rfl⟩
    · exact ⟨.INSERT, insert, rfl, rfl⟩
    · exact ⟨.SELECT, select, rfl, rfl⟩
    · exact ⟨.UPDATE, update, rfl, rfl⟩
    · exact ⟨.DELETE, delete, rfl, rfl⟩
    · exact ⟨.JOIN, join, rfl, rfl⟩
  · rintro ⟨k, p, rfl, h⟩
    cases k <;> cases h <;> decide

theorem run_statement_of_not_mem {first : Token Kind} (h : Text.upper first.text ∉ commandWords)
    (ts : List (Token Kind)) (last : Token Kind) :
    statement.run ⟨first :: ts, last⟩ = .error (.unknownCommand first.text first.pos) := by
  have hbody : (Keyword.ofSpelling? (Text.upper first.text)).bind body? = none := by
    rw [Option.eq_none_iff_forall_ne_some]
    intro p hp
    obtain ⟨k, hk, hp⟩ := Option.bind_eq_some_iff.1 hp
    exact h (mem_commandWords_iff.2 ⟨k, p, Keyword.ofSpelling?_eq_some_iff.1 hk, hp⟩)
  simp [statement, hbody]
  rfl

theorem run_statement {first : Token Kind} {k : Keyword} {p : Parser Command}
    (hword : Text.upper first.text = k.spelling) (hp : body? k = some p) (ts : List (Token Kind))
    (last : Token Kind) : statement.run ⟨first :: ts, last⟩ =
      (p >>= fun command => take .terminator .terminator >>= fun _ => pure command).run
        ⟨ts, last⟩ := by
  have hbody : (Keyword.ofSpelling? (Text.upper first.text)).bind body? = some p := by
    rw [Keyword.ofSpelling?_eq_some_iff.2 hword]
    exact hp
  simp [statement, hbody]

/-- What the grammar derives is read up to its end. -/
theorem run_statement_of_derives {ts : List (Token Kind)} {command : Command}
    (h : Derives ts command) (rest : List (Token Kind)) (last : Token Kind) :
    statement.run ⟨ts ++ rest, last⟩ = .ok (command, ⟨rest, last⟩) := by
  cases h with
  | @intro first stop k body _ hword hbody hstop =>
    obtain ⟨p, hp, hrun⟩ : ∃ p, body? k = some p ∧
        p.run ⟨body ++ stop :: rest, last⟩ = .ok (command, ⟨stop :: rest, last⟩) :=
      run_body hbody hstop
    rw [List.append_assoc, List.cons_append, run_statement hword hp, List.singleton_append,
      run_bind_of_run hrun, run_take_bind hstop]
    rfl

/-- After the first word a statement is read, or refused for the grammar, no matter what stands
after the terminator. -/
theorem statement_blind {first stop : Token Kind}
    (hfirst : Text.upper first.text ∈ commandWords) (hstop : stop.kind = .terminator)
    (front : List (Token Kind)) :
    (∃ wanted pos, ∀ rest last,
      statement.run ⟨first :: front ++ stop :: rest, last⟩ = .error (.grammar wanted pos)) ∨
    ∃ command, ∀ rest last, ∃ d,
      statement.run ⟨first :: front ++ stop :: rest, last⟩ = .ok (command, d) := by
  obtain ⟨k, p, hword, hp⟩ := mem_commandWords_iff.1 hfirst
  simp only [List.cons_append, run_statement hword hp]
  obtain ⟨wanted, pos, hbody⟩ | ⟨command, left, hbody⟩ := blind_body hp front stop hstop
  · refine .inl ⟨wanted, pos, fun rest last => ?_⟩
    rw [StateT.run_bind, hbody]
    rfl
  simp only [run_bind_of_run (hbody _ _)]
  cases left with
  | nil =>
    refine .inr ⟨command, fun rest last => ⟨⟨rest, last⟩, ?_⟩⟩
    exact run_take_bind hstop _
  | cons t us =>
    by_cases ht : t.kind = .terminator
    · refine .inr ⟨command, fun rest last => ⟨⟨us ++ stop :: rest, last⟩, ?_⟩⟩
      exact run_take_bind ht _
    · refine .inl ⟨.terminator, t.pos, fun rest last => ?_⟩
      rw [StateT.run_bind, List.cons_append, run_take_of_ne ht]
      rfl

end Parser

/-! ### Texts -/

section Text

variable {text : String} {statement tokens rest : List (Token Kind)}

/-- Only a semicolon is a terminator. -/
theorem text_of_terminator (h : statementTokens text = .ok tokens) {t : Token Kind}
    (ht : t ∈ tokens) (hkind : t.kind = .terminator) : t.text = ";" := by
  obtain ⟨kind, word, pos⟩ := t
  dsimp only at hkind
  subst hkind
  obtain ⟨r, hr, source, rest, hgives⟩ := Lexeme.exists_gives_of_mem h ht
  cases hgives with
  | reserved _ _ hreserved =>
    obtain ⟨k, hk⟩ | hk | hk := Kind.reserved?_cases hreserved <;> cases hk
  | symbol =>
    have hspelling := forall_symbol
      (p := fun kind spelling => kind != .terminator || spelling == [';']) (by decide) hr
    obtain rfl : source = [';'] := by simpa using hspelling
    rfl

/-- The end of the text is marked by no token that is written. -/
theorem kind_ne_endOfText (h : statementTokens text = .ok tokens) {t : Token Kind}
    (ht : t ∈ tokens) : t.kind ≠ .endOfText := by
  obtain ⟨kind, word, pos⟩ := t
  rintro hkind
  dsimp only at hkind
  subst hkind
  obtain ⟨r, hr, source, rest, hgives⟩ := Lexeme.exists_gives_of_mem h ht
  cases hgives with
  | reserved _ _ hreserved =>
    obtain ⟨k, hk⟩ | hk | hk := Kind.reserved?_cases hreserved <;> cases hk
  | symbol =>
    have hnot := forall_symbol (p := fun kind _ => kind != .endOfText) (by decide) hr
    cases hnot

theorem filter_of_statementTokens (h : statementTokens text = .ok tokens) :
    ∃ t, tokens.filter (·.kind = .terminator) = [t] := by
  have hscan := scan_of_statementTokens h
  rw [statementTokens, hscan, ok_bind] at h
  split at h
  · cases h
  · exact ⟨_, ‹_›⟩
  · cases h

/-- The tokens of a text have one place at which they are cut by a terminator. -/
theorem eq_front_of_statementTokens {front : List (Token Kind)} {stop : Token Kind}
    (h : statementTokens text = .ok (front ++ stop :: rest)) (hstop : stop.kind = .terminator) :
    front = (front ++ stop :: rest).takeWhile (·.kind ≠ .terminator) := by
  obtain ⟨t, ht⟩ := filter_of_statementTokens h
  have hlength : (front.filter (·.kind = .terminator)).length = 0 := by
    have hone := congrArg List.length ht
    simp [hstop] at hone
    omega
  have hall : ∀ u ∈ front, decide (u.kind ≠ .terminator) = true := by
    simpa [List.filter_eq_nil_iff] using List.length_eq_zero_iff.1 hlength
  rw [List.takeWhile_append_of_pos hall, List.takeWhile_cons_of_neg (by simp [hstop]),
    List.append_nil]

theorem parse_eq (h : statementTokens text = .ok tokens) :
    Command.parse text = (Parser.statement.run ⟨tokens, endToken text⟩).map Prod.fst := by
  rw [Command.parse, h, mapError_ok, ok_bind]
  cases Parser.statement.run ⟨tokens, endToken text⟩ <;> rfl

/-- The tokens of a text are those of a statement and the sentinel after them. -/
theorem tokenize_eq_ok_iff : tokenize text = .ok tokens ↔
    ∃ ts, statementTokens text = .ok ts ∧ tokens = ts ++ [endToken text] := by
  cases h : statementTokens text <;> simp [tokenize, h, Except.map, eq_comm]

/-- The tokens of a text go on after a statement. -/
theorem exists_statementTokens (h : tokenize text = .ok (statement ++ rest))
    (hend : ∃ t ∈ statement.getLast?, t.kind = .terminator) :
    ∃ rest', statementTokens text = .ok (statement ++ rest') := by
  obtain ⟨stop, hstop, hkind⟩ := hend
  obtain ⟨tokens, htokens, hall⟩ := tokenize_eq_ok_iff.1 h
  rcases List.eq_nil_or_concat rest with rfl | ⟨rest', t, rfl⟩
  · -- the sentinel is no terminator
    rw [List.append_nil] at hall
    rw [hall, List.getLast?_concat] at hstop
    cases hstop
    cases hkind
  · refine ⟨rest', htokens.trans (congrArg _ ?_)⟩
    rw [List.concat_eq_append, ← List.append_assoc] at hall
    exact (List.append_inj' hall rfl).1.symm

/-- What the grammar derives is read. -/
theorem parse_of_derives {command : Command} (h : statementTokens text = .ok (statement ++ rest))
    (hderives : Derives statement command) : Command.parse text = .ok command := by
  rw [parse_eq h, Parser.run_statement_of_derives hderives]
  rfl

theorem derives_of_parse {front : List (Token Kind)} {stop : Token Kind} {command : Command}
    (h : statementTokens text = .ok (front ++ stop :: rest)) (hstop : stop.kind = .terminator)
    (hparse : Command.parse text = .ok command) : Derives (front ++ [stop]) command := by
  obtain ⟨first, k, body, stop', rest', h', hword, hbody, hstop'⟩ :=
    exists_production_of_parse hparse
  obtain heq : front ++ stop :: rest = first :: body ++ stop' :: rest' := by simpa [h] using h'
  obtain rfl : front = first :: body := by
    rw [eq_front_of_statementTokens h hstop, heq]
    exact (eq_front_of_statementTokens h' hstop').symm
  obtain ⟨rfl, rfl⟩ := List.cons.inj (List.append_cancel_left heq)
  exact .intro (Keyword.ofSpelling?_eq_some_iff.1 hword) hbody hstop

/-- A statement has one outcome, whatever stands after it. -/
theorem exists_outcome (h : statementTokens text = .ok (statement ++ rest))
    (hend : ∃ t ∈ statement.getLast?, t.kind = .terminator) :
    ∃ first ∈ statement.head?, ∃ outcome,
      (∀ text' rest', statementTokens text' = .ok (statement ++ rest') →
        Command.parse text' = outcome) ∧
      (Text.upper first.text ∉ commandWords ∧
          outcome = .error (.unknownCommand first.text first.pos) ∨
        Text.upper first.text ∈ commandWords ∧
          ((∃ wanted pos, outcome = .error (.grammar wanted pos)) ∨
            ∃ command, outcome = .ok command)) := by
  obtain ⟨stop, hlast, hstop⟩ := hend
  obtain ⟨front, rfl⟩ := List.getLast?_eq_some_iff.1 hlast
  cases front with
  | nil =>
    have hword : Text.upper stop.text ∉ commandWords := by
      rw [text_of_terminator h (by simp) hstop]
      decide
    refine ⟨stop, rfl, .error (.unknownCommand stop.text stop.pos), ?_, .inl ⟨hword, rfl⟩⟩
    intro text' rest' h'
    rw [parse_eq h']
    exact congrArg (Except.map Prod.fst) (Parser.run_statement_of_not_mem hword _ _)
  | cons first front =>
    by_cases hword : Text.upper first.text ∈ commandWords
    · obtain ⟨wanted, pos, hrun⟩ | ⟨command, hrun⟩ :=
        Parser.statement_blind hword hstop front
      · refine ⟨first, rfl, .error (.grammar wanted pos), ?_, .inr ⟨hword, .inl ⟨_, _, rfl⟩⟩⟩
        intro text' rest' h'
        rw [parse_eq h', List.append_assoc]
        exact congrArg (Except.map Prod.fst) (hrun rest' _)
      · refine ⟨first, rfl, .ok command, ?_, .inr ⟨hword, .inr ⟨_, rfl⟩⟩⟩
        intro text' rest' h'
        obtain ⟨d, hrun⟩ := hrun rest' (endToken text')
        rw [parse_eq h', List.append_assoc]
        exact congrArg (Except.map Prod.fst) hrun
    · refine ⟨first, rfl, .error (.unknownCommand first.text first.pos), ?_, .inl ⟨hword, rfl⟩⟩
      intro text' rest' h'
      rw [parse_eq h']
      exact congrArg (Except.map Prod.fst) (Parser.run_statement_of_not_mem hword _ _)

end Text

/-- The parser accepts exactly the statements that the grammar derives. It refuses the others for
their first word if no command starts with it, and for the grammar otherwise. What stands after the
terminator has no part in it. -/
theorem Command.parse_iff_derives {text : String} {statement rest : List (Token Kind)}
    (h : tokenize text = .ok (statement ++ rest))
    (hend : ∃ t ∈ statement.getLast?, t.kind = .terminator) :
    (∀ command, parse text = .ok command ↔ Derives statement command) ∧
    (∃ first ∈ statement.head?,
      (∀ word pos, parse text = .error (.unknownCommand word pos) ↔
        Text.upper first.text ∉ commandWords ∧ word = first.text ∧ pos = first.pos) ∧
      ((∃ wanted pos, parse text = .error (.grammar wanted pos)) ↔
        Text.upper first.text ∈ commandWords ∧ ∀ command, ¬ Derives statement command)) ∧
    (∀ e, parse text ≠ .error (.lexical e)) ∧
    ∀ text' rest', tokenize text' = .ok (statement ++ rest') → parse text' = parse text := by
  obtain ⟨rest, htokens⟩ := exists_statementTokens h hend
  have hderives : ∀ command, parse text = .ok command ↔ Derives statement command := by
    intro command
    refine ⟨fun hparse => ?_, parse_of_derives htokens⟩
    obtain ⟨stop, hlast, hstop⟩ := hend
    obtain ⟨front, rfl⟩ := List.getLast?_eq_some_iff.1 hlast
    exact derives_of_parse (by simpa using htokens) hstop hparse
  obtain ⟨first, hfirst, outcome, hsame, houtcome⟩ := exists_outcome htokens hend
  have hparse : parse text = outcome := hsame text rest htokens
  have hafter : ∀ text' rest', tokenize text' = .ok (statement ++ rest') →
      parse text' = parse text := by
    intro text' rest' h'
    obtain ⟨rest'', htokens'⟩ := exists_statementTokens h' hend
    rw [hparse, hsame text' rest'' htokens']
  refine ⟨hderives, ⟨first, hfirst, ?_⟩, ?_, hafter⟩
  · simp only [← hderives, hparse]
    rcases houtcome with ⟨hword, rfl⟩ | ⟨hword, ⟨wanted, pos, rfl⟩ | ⟨command, rfl⟩⟩
    · simp [hword, eq_comm]
    · simp [hword]
    · simp [hword]
  · rw [hparse]
    rcases houtcome with ⟨-, rfl⟩ | ⟨-, ⟨wanted, pos, rfl⟩ | ⟨command, rfl⟩⟩ <;> simp

/-- A statement in front of a word that is not looked at. -/
theorem Command.parse_iff_derives_use :
    ∃ statement rest, tokenize "use d; from" = .ok (statement ++ rest) ∧
      (∃ t ∈ statement.getLast?, t.kind = .terminator) ∧
      Command.parse "use d; from" = .ok (.use "d") ∧ Derives statement (.use "d") := by
  have h : tokenize "use d; from" = .ok ([⟨.keyword .USE, "USE", 0⟩, ⟨.identifier, "d", 4⟩,
      ⟨.terminator, ";", 5⟩] ++ [⟨.keyword .FROM, "FROM", 7⟩, ⟨.endOfText, "", 11⟩]) := by
    decide +kernel
  have hend : ∃ t ∈ [(⟨.keyword .USE, "USE", 0⟩ : Token Kind), ⟨.identifier, "d", 4⟩,
      ⟨.terminator, ";", 5⟩].getLast?, t.kind = .terminator := ⟨_, rfl, rfl⟩
  have hparse : Command.parse "use d; from" = .ok (.use "d") := by decide +kernel
  exact ⟨_, _, h, hend, hparse, ((Command.parse_iff_derives h hend).1 _).1 hparse⟩

end Tabula
