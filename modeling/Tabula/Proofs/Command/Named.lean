import Tabula.Proofs.Command.FirstWord

/-!
# Where a statement names its table

A statement about one table has the name of the table behind one of four keywords, and in front of
that keyword are only a command word, names of columns, commas and a star
(`Command.exists_table_of_parse`). The keyword `UPDATE` is a command word itself, so a string may
stand in its place.
-/

namespace Tabula

/-- The keywords that the name of a table follows. -/
def tableKeywords : List Keyword := [.TABLE, .INTO, .FROM, .UPDATE]

/-- Whether a token of this kind may stand in front of such a keyword. -/
def Kind.isLeading : Kind → Bool
  | identifier | comma | star | string => true
  | keyword k => k ∉ tableKeywords
  | _ => false

/-- Whether a token of this kind may stand behind the name of a table. -/
def Kind.isFollowing : Kind → Bool
  | terminator | openParen | keyword _ => true
  | _ => false

variable {k : Keyword} {body : List (Token Kind)} {command : Command} {table text : String}

/-- What follows a command word has the name of a table at its start, or behind a keyword. -/
inductive NamesTable (table : String) : Keyword → List (Token Kind) → Prop
  | first {n : Token Kind} {post : List (Token Kind)} : n.kind = .identifier → n.text = table →
      (∀ u ∈ post.head?, u.kind.isFollowing = true) → NamesTable table .UPDATE (n :: post)
  | behind (pre : List (Token Kind)) {k w : Keyword} {word n : Token Kind}
      {post : List (Token Kind)} : k ∉ tableKeywords → w ∈ tableKeywords →
      word.kind = .keyword w → n.kind = .identifier → n.text = table →
      (∀ t ∈ pre, t.kind.isLeading = true) → (∀ u ∈ post.head?, u.kind.isFollowing = true) →
      NamesTable table k (pre ++ word :: n :: post)

theorem isLeading_of_isProjection {ts : List (Token Kind)} {columns : Projection}
    (h : IsProjection ts columns) : ∀ t ∈ ts, t.kind.isLeading = true := by
  cases h with
  | all hstar => simp [hstar, Kind.isLeading]
  | columns hcolumns =>
    refine forall_kind_of_commaList (p := (·.isLeading = true)) rfl ?_ hcolumns
    rintro _ _ ⟨t, rfl, ht, -⟩
    simp [ht, Kind.isLeading]

theorem Production.namesTable (h : Production k body command) (htable : command.tables = [table]) :
    NamesTable table k body := by
  cases h with
  | use | createDatabase | dropDatabase | join => simp [Command.tables] at htable
  | createTable hk hn | dropTable hk hn =>
    exact .behind [] (by decide) (by decide) hk hn (List.singleton_inj.1 htable) (by simp) (by simp)
  | createTableWith hk hn hnext | alterAdd hk hn hnext | alterDrop hk hn hnext
  | insert hk hn hnext | delete hk hn hnext =>
    exact .behind [] (by decide) (by decide) hk hn (List.singleton_inj.1 htable) (by simp)
      (by simp [hnext, Kind.isFollowing])
  | select hcolumns hk hn =>
    exact .behind _ (by decide) (by decide) hk hn (List.singleton_inj.1 htable)
      (isLeading_of_isProjection hcolumns) (by simp)
  | selectWhere hcolumns hk hn hnext =>
    exact .behind _ (by decide) (by decide) hk hn (List.singleton_inj.1 htable)
      (isLeading_of_isProjection hcolumns) (by simp [hnext, Kind.isFollowing])
  | update hn hnext =>
    exact .first hn (List.singleton_inj.1 htable) (by simp [hnext, Kind.isFollowing])

/-- A token of a statement with the text of a command word is that keyword, or a string. -/
theorem kind_of_upper {tokens : List (Token Kind)} (h : statementTokens text = .ok tokens)
    {t : Token Kind} (ht : t ∈ tokens) (hk : k.spelling ∈ commandWords)
    (hword : Text.upper t.text = k.spelling) : t.kind = .keyword k ∨ t.kind = .string := by
  obtain ⟨s, l, -, hl, hkind, htext⟩ := exists_lexeme_of_mem_scan (scan_of_statementTokens h) ht
  rw [hkind]
  exact (Lexeme.first?_eq_some_iff.1 hl).kind_of_upper hk (htext ▸ hword)

/-- A statement about one table names it behind one of four keywords, or behind a string that stands
for the keyword `UPDATE`. -/
theorem Command.exists_table_of_parse (h : parse text = .ok command)
    (htable : command.tables = [table]) :
    ∃ pre word n u post, statementTokens text = .ok (pre ++ word :: n :: u :: post) ∧
      n.kind = .identifier ∧ n.text = table ∧ u.kind.isFollowing = true ∧
      (∀ t ∈ pre, t.kind.isLeading = true) ∧
      ((∃ w ∈ tableKeywords, word.kind = .keyword w) ∨
        pre = [] ∧ word.kind = .string ∧ Text.upper word.text = "UPDATE") := by
  obtain ⟨first, k, body, stop, rest, htokens, hword, hbody, hstop⟩ := exists_production_of_parse h
  have hword := Keyword.ofSpelling?_eq_some_iff.1 hword
  have hcommand : k.spelling ∈ commandWords := by cases hbody <;> decide
  have hfirst := kind_of_upper htokens (t := first) (by simp) hcommand hword
  have hnext {post : List (Token Kind)} (hpost : ∀ u ∈ post.head?, u.kind.isFollowing = true) :
      ∃ u post', post ++ stop :: rest = u :: post' ∧ u.kind.isFollowing = true := by
    cases post with
    | nil => exact ⟨stop, rest, rfl, by simp [hstop, Kind.isFollowing]⟩
    | cons u post => exact ⟨u, _, rfl, hpost u rfl⟩
  cases hbody.namesTable htable with
  | @first n post hn hname hpost =>
    obtain ⟨u, post', hbehind, hu⟩ := hnext hpost
    refine ⟨[], first, n, u, post', ?_, hn, hname, hu, by simp, ?_⟩
    · rw [htokens, ← hbehind]
      rfl
    · exact hfirst.imp (fun hkind => ⟨.UPDATE, by decide, hkind⟩) fun hkind => ⟨rfl, hkind, hword⟩
  | @behind pre _ w word n post hk hw hkind hn hname hpre hpost =>
    obtain ⟨u, post', hbehind, hu⟩ := hnext hpost
    refine ⟨first :: pre, word, n, u, post', ?_, hn, hname, hu, ?_, .inl ⟨w, hw, hkind⟩⟩
    · rw [htokens, ← hbehind]
      simp
    · refine List.forall_mem_cons.2 ⟨?_, hpre⟩
      rcases hfirst with hkind | hkind <;> simp [hkind, Kind.isLeading, hk]

end Tabula
