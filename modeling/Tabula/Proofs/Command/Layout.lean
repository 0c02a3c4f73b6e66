import Tabula.Proofs.Command.Acceptance
import Tabula.Proofs.Token.Layout

/-!
# Statements laid out

The grammar does not look at the offsets of tokens (`placeFree_derives`). So a text states a command
if it is laid out from lexemes that the grammar derives the command from, however they are spaced
(`Layout.parse_eq`), and two texts with the same tokens but for their places state the same command
(`Layout.parse_congr`).
-/

namespace Tabula

/-- What tokens state does not depend on where they stand. -/
def PlaceFree {α : Type} (states : List (Token Kind) → α → Prop) : Prop :=
  ∀ ⦃ts us a⦄, us.map Token.unplaced = ts.map Token.unplaced → states ts a → states us a

section Grammar

/-- One token of some kinds states its text wherever it stands. -/
theorem placeFree_token (allowed : Kind → Prop) :
    PlaceFree fun ts s => ∃ t : Token Kind, ts = [t] ∧ allowed t.kind ∧ s = t.text := by
  rintro _ us _ h ⟨t, rfl, hkind, rfl⟩
  obtain ⟨u, rfl, hu⟩ := List.map_eq_singleton_iff.1 h
  obtain ⟨hk, htext⟩ := Token.unplaced_eq_iff.1 hu
  exact ⟨u, rfl, hk ▸ hkind, htext.symm⟩

theorem placeFree_isIdentifier : PlaceFree IsIdentifier := placeFree_token (· = .identifier)

theorem placeFree_isLiteral : PlaceFree IsLiteral := placeFree_token (·.isLiteral = true)

theorem placeFree_isAssignment : PlaceFree IsAssignment := by
  rintro _ us _ h ⟨column, sign, value, rfl, hcolumn, hsign, hvalue, rfl⟩
  simp only [List.map_cons, List.map_nil, List.map_eq_cons_iff, List.map_eq_nil_iff,
    Token.unplaced_eq_iff] at h
  obtain ⟨c, _, rfl, hc, s, _, rfl, hs, v, _, rfl, hv, rfl⟩ := h
  exact ⟨c, s, v, rfl, hc.1 ▸ hcolumn, hs.1 ▸ hsign, hv.1 ▸ hvalue, by rw [hc.2, hv.2]⟩

theorem placeFree_commaList {α : Type} {item : List (Token Kind) → α → Prop}
    (hitem : PlaceFree item) : PlaceFree (CommaList item) := by
  intro ts us as h hts
  induction hts generalizing us with
  | one ha => exact .one (hitem h ha)
  | cons ha hcomma _ ih =>
    simp only [List.map_append, List.map_cons, List.map_eq_append_iff, List.map_eq_cons_iff] at h
    obtain ⟨front, _, rfl, hfront, comma, later, rfl, hk, hlater⟩ := h
    exact .cons (hitem hfront ha) ((Token.unplaced_eq_iff.1 hk).1 ▸ hcomma) (ih hlater)

theorem placeFree_isCondition : PlaceFree IsCondition := by
  rintro ts us _ h ⟨hne, hall, rfl⟩
  have hcondition : ∀ t : Token Kind, Parser.inCondition t.unplaced = Parser.inCondition t :=
    fun _ => rfl
  have hspelled : ∀ t : Token Kind, Parser.spelled t.unplaced = Parser.spelled t := fun _ => rfl
  refine ⟨?_, fun u hu => ?_, ?_⟩
  · rintro rfl
    exact hne (by simpa using h.symm)
  · obtain ⟨t, ht, htu⟩ := List.mem_map.1 (h ▸ List.mem_map_of_mem (f := Token.unplaced) hu)
    rw [← hcondition u, ← htu]
    exact hall t ht
  · have hmap := congrArg (List.map Parser.spelled) h
    simp only [List.map_map, Function.comp_def, hspelled] at hmap
    rw [hmap]

theorem placeFree_isProjection : PlaceFree IsProjection := by
  intro ts us columns h hts
  cases hts with
  | all hstar =>
    obtain ⟨u, rfl, hu⟩ := List.map_eq_singleton_iff.1 h
    exact .all ((Token.unplaced_eq_iff.1 hu).1 ▸ hstar)
  | columns hnames => exact .columns (placeFree_commaList placeFree_isIdentifier h hnames)

theorem placeFree_production (k : Keyword) : PlaceFree (Production k) := by
  intro ts us command h hts
  have hnames := placeFree_commaList placeFree_isIdentifier
  cases hts <;>
    simp only [List.map_append, List.map_cons, List.map_nil, List.map_eq_append_iff,
      List.map_eq_cons_iff, List.map_eq_nil_iff, Token.unplaced_eq_iff, List.cons_append] at h
  case use hn =>
    obtain ⟨n, _, rfl, ⟨hn', htext⟩, rfl⟩ := h
    rw [← htext]
    exact .use (hn'.trans hn)
  case createDatabase hk hn =>
    obtain ⟨k, _, rfl, ⟨hk', -⟩, n, _, rfl, ⟨hn', htext⟩, rfl⟩ := h
    rw [← htext]
    exact .createDatabase (hk'.trans hk) (hn'.trans hn)
  case createTable hk hn =>
    obtain ⟨k, _, rfl, ⟨hk', -⟩, n, _, rfl, ⟨hn', htext⟩, rfl⟩ := h
    rw [← htext]
    exact .createTable (hk'.trans hk) (hn'.trans hn)
  case createTableWith hk hn ho hcolumns hc =>
    obtain ⟨k, _, rfl, ⟨hk', -⟩, n, _, rfl, ⟨hn', htext⟩, o, _, rfl, ⟨ho', -⟩, ts, _, rfl, hts,
      c, _, rfl, ⟨hc', -⟩, rfl⟩ := h
    rw [← htext]
    exact .createTableWith (hk'.trans hk) (hn'.trans hn) (ho'.trans ho) (hnames hts hcolumns)
      (hc'.trans hc)
  case dropDatabase hk hn =>
    obtain ⟨k, _, rfl, ⟨hk', -⟩, n, _, rfl, ⟨hn', htext⟩, rfl⟩ := h
    rw [← htext]
    exact .dropDatabase (hk'.trans hk) (hn'.trans hn)
  case dropTable hk hn =>
    obtain ⟨k, _, rfl, ⟨hk', -⟩, n, _, rfl, ⟨hn', htext⟩, rfl⟩ := h
    rw [← htext]
    exact .dropTable (hk'.trans hk) (hn'.trans hn)
  case alterAdd hk hn ha hc =>
    obtain ⟨k, _, rfl, ⟨hk', -⟩, n, _, rfl, ⟨hn', htext⟩, a, _, rfl, ⟨ha', -⟩, c, _, rfl,
      ⟨hc', htext'⟩, rfl⟩ := h
    rw [← htext, ← htext']
    exact .alterAdd (hk'.trans hk) (hn'.trans hn) (ha'.trans ha) (hc'.trans hc)
  case alterDrop hk hn ha hc =>
    obtain ⟨k, _, rfl, ⟨hk', -⟩, n, _, rfl, ⟨hn', htext⟩, a, _, rfl, ⟨ha', -⟩, c, _, rfl,
      ⟨hc', htext'⟩, rfl⟩ := h
    rw [← htext, ← htext']
    exact .alterDrop (hk'.trans hk) (hn'.trans hn) (ha'.trans ha) (hc'.trans hc)
  case insert hi hn hv ho hvalues hc =>
    obtain ⟨i, _, rfl, ⟨hi', -⟩, n, _, rfl, ⟨hn', htext⟩, v, _, rfl, ⟨hv', -⟩, o, _, rfl,
      ⟨ho', -⟩, ts, _, rfl, hts, c, _, rfl, ⟨hc', -⟩, rfl⟩ := h
    rw [← htext]
    exact .insert (hi'.trans hi) (hn'.trans hn) (hv'.trans hv) (ho'.trans ho)
      (placeFree_commaList placeFree_isLiteral hts hvalues) (hc'.trans hc)
  case select hcolumns hf hn =>
    obtain ⟨ts, _, rfl, hts, f, _, rfl, ⟨hf', -⟩, n, _, rfl, ⟨hn', htext⟩, rfl⟩ := h
    rw [← htext]
    exact .select (placeFree_isProjection hts hcolumns) (hf'.trans hf) (hn'.trans hn)
  case selectWhere hcolumns hf hn hw hcondition =>
    obtain ⟨ts, _, rfl, hts, f, _, rfl, ⟨hf', -⟩, n, _, rfl, ⟨hn', htext⟩, w, us, rfl, ⟨hw', -⟩,
      hus⟩ := h
    rw [← htext]
    exact .selectWhere (placeFree_isProjection hts hcolumns) (hf'.trans hf) (hn'.trans hn)
      (hw'.trans hw) (placeFree_isCondition hus hcondition)
  case update hn hs hassignments hw hcondition =>
    obtain ⟨n, _, rfl, ⟨hn', htext⟩, s, _, rfl, ⟨hs', -⟩, ts, _, rfl, hts, w, us, rfl, ⟨hw', -⟩,
      hus⟩ := h
    rw [← htext]
    exact .update (hn'.trans hn) (hs'.trans hs)
      (placeFree_commaList placeFree_isAssignment hts hassignments) (hw'.trans hw)
      (placeFree_isCondition hus hcondition)
  case delete hf hn hw hcondition =>
    obtain ⟨f, _, rfl, ⟨hf', -⟩, n, _, rfl, ⟨hn', htext⟩, w, us, rfl, ⟨hw', -⟩, hus⟩ := h
    rw [← htext]
    exact .delete (hf'.trans hf) (hn'.trans hn) (hw'.trans hw)
      (placeFree_isCondition hus hcondition)
  case join hl ha hr ho hla hb hra =>
    obtain ⟨l, _, rfl, ⟨hl', htext₁⟩, a, _, rfl, ⟨ha', -⟩, r, _, rfl, ⟨hr', htext₂⟩, o, _, rfl,
      ⟨ho', -⟩, la, _, rfl, ⟨hla', htext₃⟩, b, _, rfl, ⟨hb', -⟩, ra, _, rfl, ⟨hra', htext₄⟩,
      rfl⟩ := h
    rw [← htext₁, ← htext₂, ← htext₃, ← htext₄]
    exact .join (hl'.trans hl) (ha'.trans ha) (hr'.trans hr) (ho'.trans ho) (hla'.trans hla)
      (hb'.trans hb) (hra'.trans hra)

theorem placeFree_derives : PlaceFree Derives := by
  intro ts us command h hts
  cases hts with
  | @intro first stop k body _ hword hbody hstop =>
    simp only [List.map_append, List.map_cons, List.map_nil, List.map_eq_append_iff,
      List.map_eq_cons_iff, List.map_eq_nil_iff, Token.unplaced_eq_iff, List.cons_append] at h
    obtain ⟨f, _, rfl, ⟨-, htext⟩, b, _, rfl, hb, s, _, rfl, ⟨hs, -⟩, rfl⟩ := h
    exact .intro (htext ▸ hword) (placeFree_production k hb hbody) (hs.trans hstop)

/-! ### Terminators of statements -/

variable {t : Token Kind} {ts : List (Token Kind)}

/-- What is true of commas and of the tokens of each item is true of all tokens of a list. -/
theorem forall_kind_of_commaList {α : Type} {item : List (Token Kind) → α → Prop}
    {p : Kind → Prop} (hcomma : p .comma) (hitem : ∀ ts a, item ts a → ∀ t ∈ ts, p t.kind)
    {as : List α} (h : CommaList item ts as) : ∀ t ∈ ts, p t.kind := by
  induction h with
  | one ha => exact hitem _ _ ha
  | cons ha hkind _ ih =>
    exact List.forall_mem_append.2 ⟨hitem _ _ ha, List.forall_mem_cons.2 ⟨hkind ▸ hcomma, ih⟩⟩

/-- A production does not reach over a terminator. -/
theorem Production.kind_ne_terminator {k : Keyword} {command : Command}
    (h : Production k ts command) : ∀ t ∈ ts, t.kind ≠ .terminator := by
  have hliteral : ∀ {k : Kind}, k.isLiteral = true → k ≠ .terminator := by
    rintro _ hk rfl
    cases hk
  have hnames : ∀ {ts names}, CommaList IsIdentifier ts names → ∀ t ∈ ts, t.kind ≠ .terminator :=
    forall_kind_of_commaList (p := (· ≠ .terminator)) (by simp) (by
      rintro _ _ ⟨t, rfl, ht, -⟩
      simp [ht])
  have hvalues : ∀ {ts values}, CommaList IsLiteral ts values → ∀ t ∈ ts, t.kind ≠ .terminator :=
    forall_kind_of_commaList (p := (· ≠ .terminator)) (by simp) (by
      rintro _ _ ⟨t, rfl, ht, -⟩
      simpa using hliteral ht)
  have hassigned : ∀ {ts assignments}, CommaList IsAssignment ts assignments →
      ∀ t ∈ ts, t.kind ≠ .terminator :=
    forall_kind_of_commaList (p := (· ≠ .terminator)) (by simp) (by
      rintro _ _ ⟨column, sign, value, rfl, hcolumn, hsign, hvalue, -⟩
      simp [hcolumn, hsign, hliteral hvalue])
  have hshown : ∀ {ts columns}, IsProjection ts columns → ∀ t ∈ ts, t.kind ≠ .terminator := by
    rintro _ _ (hstar | hcolumns)
    · simp [hstar]
    · exact hnames hcolumns
  have hcondition : ∀ {ts s}, IsCondition ts s → ∀ t ∈ ts, t.kind ≠ .terminator := by
    rintro _ _ ⟨-, hall, -⟩ t ht hstop
    simpa [Parser.inCondition, hstop] using hall t ht
  cases h with
  | createTableWith hk hn ho hcolumns hc =>
    simpa [hk, hn, ho, hc, or_imp, forall_and] using hnames hcolumns
  | insert hi hn hv ho hlist hc =>
    simpa [hi, hn, hv, ho, hc, or_imp, forall_and] using hvalues hlist
  | select hcolumns hf hn => simpa [hf, hn, or_imp, forall_and] using hshown hcolumns
  | selectWhere hcolumns hf hn hw hwhere =>
    simpa [hf, hn, hw, or_imp, forall_and] using And.intro (hshown hcolumns) (hcondition hwhere)
  | update hn hs hlist hw hwhere =>
    simpa [hn, hs, hw, or_imp, forall_and] using And.intro (hassigned hlist) (hcondition hwhere)
  | delete hf hn hw hwhere => simpa [hf, hn, hw] using hcondition hwhere
  | _ => simp [*]

end Grammar

/-! ### Texts of statements -/

section Layout

variable {text : String} {ls : List Lexeme} {command : Command}

/-- A text states a command if it is laid out from lexemes that the grammar derives it from. -/
theorem Layout.parse_eq (h : Layout text.toList ls [])
    (hderives : Derives (ls.map (·.token 0)) command) : Command.parse text = .ok command := by
  obtain ⟨tokens, hscan, htokens⟩ := h.exists_scan 0
  have hfirst : ∀ t ∈ tokens, t.kind = .terminator → t.text = ";" := by
    intro t ht hkind
    obtain ⟨l, hl, hlt⟩ := List.mem_map.1 (htokens ▸ List.mem_map_of_mem (f := Token.unplaced) ht)
    have hk : l.kind = t.kind := congrArg Token.kind hlt
    have htext : l.text = t.text := congrArg Token.text hlt
    obtain ⟨r, hpicked⟩ := h.exists_picked l hl
    exact htext ▸ (hpicked.source_of_terminator (hk.trans hkind)).2
  have hplaced : Derives tokens command := placeFree_derives (htokens.trans (by simp)) hderives
  have hone : ∃ t, tokens.filter (·.kind = .terminator) = [t] := by
    cases hplaced with
    | @intro first stop k body _ hword hbody hstop =>
      have hnot : first.kind ≠ .terminator := by
        intro hkind
        rw [hfirst first (by simp) hkind] at hword
        cases k <;> exact absurd hword (by decide)
      have hnone : body.filter (·.kind = .terminator) = [] := by
        simpa [List.filter_eq_nil_iff] using hbody.kind_ne_terminator
      exact ⟨stop, by simp [hnot, hnone, hstop]⟩
  obtain ⟨t, ht⟩ := hone
  have hstatement : statementTokens text = .ok (tokens ++ []) := by
    rw [statementTokens, hscan, ok_bind, ht, List.append_nil]
  exact parse_of_derives hstatement hplaced

/-- A text that is laid out from lexemes with one terminator has the tokens of a statement. -/
theorem Layout.exists_statementTokens (h : Layout text.toList ls [])
    (hone : (ls.filter (·.kind = .terminator)).length = 1) :
    ∃ tokens, statementTokens text = .ok tokens ∧
      tokens.map Token.unplaced = ls.map (·.token 0) := by
  obtain ⟨tokens, hscan, htokens⟩ := h.exists_scan 0
  obtain ⟨t, ht⟩ := List.length_eq_one_iff.1 ((length_terminators_eq htokens).trans hone)
  exact ⟨tokens, by rw [statementTokens, hscan, ok_bind, ht], htokens⟩

/-- A text that is laid out from the tokens of a statement states the same command. -/
theorem Layout.parse_congr {text' : String} {tokens : List (Token Kind)}
    (htokens : statementTokens text = .ok tokens) (hparse : Command.parse text = .ok command)
    (h : Layout text'.toList ls [])
    (hls : ls.map (·.token 0) = tokens.map Token.unplaced) :
    Command.parse text' = .ok command := by
  obtain ⟨first, k, body, stop, rest, htokens', hword, hbody, hstop⟩ :=
    exists_production_of_parse hparse
  obtain rfl : tokens = first :: body ++ stop :: rest := by simpa [htokens] using htokens'
  have hderives : Derives (first :: body ++ [stop]) command :=
    .intro (Keyword.ofSpelling?_eq_some_iff.1 hword) hbody hstop
  have hone : (ls.filter (·.kind = .terminator)).length = 1 := by
    obtain ⟨t, ht⟩ := filter_of_statementTokens htokens
    rw [← length_terminators_eq hls.symm, ht, List.length_singleton]
  obtain ⟨us, hstatement, hus⟩ := h.exists_statementTokens hone
  have hsplit : us.map Token.unplaced =
      (first :: body ++ [stop]).map Token.unplaced ++ rest.map Token.unplaced := by
    simp [hus, hls]
  obtain ⟨front, rest', rfl, hfront, -⟩ := List.map_eq_append_iff.1 hsplit
  exact parse_of_derives hstatement (placeFree_derives hfront hderives)

end Layout

end Tabula
