import Mathlib.Data.List.Forall2
import Tabula.Proofs.Editor.Statement
import Tabula.Proofs.Script.Comment

/-!
# Tables that are overlooked

The names of tables are searched for in a document as it stands, and its statements are read without
its comments. Where no comment is, both see the same text, so the mention that a statement has of
its table is found. It is overlooked only if a string stands for the first word of the statement, if
a comment stands between the word and the name, or if the comment in front of the mention ends in a
word that takes the first word of the mention for a name (`Editor.tableNames_complete`).

## Main definitions

* `Editor.Commented` — a character of a document is blanked out with its comments.
* `Editor.Overlooked` — why the table of a statement may be missing from the names.
-/

namespace Tabula.Editor

open Script

/-- A character of a document is blanked out with a comment. -/
def Commented (source : String) (i : Nat) : Prop :=
  (withoutComments source).toList[i]? ≠ source.toList[i]?

/-- Why the table of a statement may be missing from the names that are found in a document. -/
inductive Overlooked (source : String) (s : Statement) (table : String) : Prop
  | quoted : QuotedUpdate s.text → Overlooked source s table
  | interrupted {before word gap after : List Char} {i : Nat} :
      NamedAt source.toList s table before word gap after → i < gap.length →
      Commented source ((before ++ word).length + i) → Overlooked source s table
  | swallowed {front earlier blanks word gap after : List Char} :
      NamedAt source.toList s table (front ++ earlier ++ blanks) word gap after →
      IsTableWord earlier → AllBlank blanks →
      (∀ i < earlier.length, Commented source (front.length + i)) → Overlooked source s table

variable {source : String} {c d : Char} {s t front before before' mid mid' after after' word gap
  gap' name : List Char}

/-! ### Beside a comment -/

theorem isWordChar_of_kept (h : Kept c d) (hc : Text.isWordChar c = false) :
    Text.isWordChar d = false := by
  rcases h with rfl | rfl
  · exact hc
  · decide +kernel

theorem endsInWord_of_forall₂_kept (h : List.Forall₂ Kept s t) (hs : endsInWord s = false) :
    endsInWord t = false := by
  rcases List.eq_nil_or_concat s with rfl | ⟨s, c, rfl⟩
  · rw [List.forall₂_nil_left_iff.1 h]
    rfl
  rw [List.concat_eq_append] at h hs
  obtain ⟨t, last, rfl, -, hlast⟩ := exists_of_append_forall₂ h
  obtain ⟨d, rest, hcd, hrest, rfl⟩ := List.forall₂_cons_left_iff.1 hlast
  obtain rfl := List.forall₂_nil_left_iff.1 hrest
  rw [endsInWord_concat] at hs ⊢
  exact isWordChar_of_kept hcd hs

theorem newline_not_mem (h : ∀ c ∈ word, Text.isWordChar c = true) : '\n' ∉ word := by
  intro hmem
  have hnot : Text.isWordChar '\n' = false := by decide +kernel
  rw [h _ hmem] at hnot
  cases hnot

/-- What is not blank on a line keeps all of the line. -/
theorem eq_of_kept (hsource : source.toList = before ++ mid ++ after)
    (hkept : (withoutComments source).toList = before' ++ mid' ++ after')
    (hbefore : List.Forall₂ Kept before before') (hmid : List.Forall₂ Kept mid mid')
    (hline : '\n' ∉ mid) (hword : ∃ c ∈ mid', Text.isWordChar c = true) : mid' = mid := by
  refine (kept_or_blanked hsource hkept hbefore.length_eq.symm hmid.length_eq.symm
    hline).resolve_right fun hblank => ?_
  obtain ⟨c, hc, hword⟩ := hword
  have hnot : Text.isWordChar ' ' = false := by decide +kernel
  rw [hblank] at hc
  rw [List.eq_of_mem_replicate hc, hnot] at hword
  cases hword

/-- What is not the same without the comments is in a comment. -/
theorem commented_of_ne (hsource : source.toList = before ++ mid ++ after)
    (hkept : (withoutComments source).toList = before' ++ mid' ++ after')
    (hbefore : List.Forall₂ Kept before before') (hmid : List.Forall₂ Kept mid mid') {i : Nat}
    (hi : i < mid.length) (hne : mid'[i]? ≠ mid[i]?) : Commented source (before.length + i) := by
  have hi' : i < mid'.length := hmid.length_eq ▸ hi
  have hget : source.toList[before.length + i]? = mid[i]? := by
    rw [hsource, List.append_assoc, List.getElem?_append_right (Nat.le_add_right _ _),
      Nat.add_sub_cancel_left, List.getElem?_append_left hi]
  have hget' : (withoutComments source).toList[before.length + i]? = mid'[i]? := by
    rw [hkept, hbefore.length_eq, List.append_assoc,
      List.getElem?_append_right (Nat.le_add_right _ _), Nat.add_sub_cancel_left,
      List.getElem?_append_left hi']
  rwa [Commented, hget, hget']

/-- Where no word goes on without the comments, no word goes on with them. -/
theorem stops_of_kept (hsource : source.toList = before ++ name ++ after)
    (hkept : (withoutComments source).toList = before' ++ name ++ after')
    (hbefore : List.Forall₂ Kept before before') (hafter : List.Forall₂ Kept after after')
    (hne : name ≠ []) (hname : ∀ c ∈ name, Text.isWordChar c = true)
    (hstops : Stops Text.isWordChar after') : Stops Text.isWordChar after := by
  intro c hc
  by_contra hword
  obtain ⟨after, rfl⟩ := List.head?_eq_some_iff.1 hc
  cases hafter with
  | @cons _ d _ after' hcd hafter =>
    have hline : '\n' ∉ name ++ [c] := newline_not_mem fun e he => by
      rcases List.mem_append.1 he with he | he
      · exact hname e he
      · rw [List.mem_singleton.1 he]
        simpa using hword
    have hsame : name ++ [d] = name ++ [c] := eq_of_kept (by simpa using hsource)
      (by simpa using hkept) hbefore
      (List.rel_append (forall₂_kept_refl _) (.cons hcd .nil)) hline
      ⟨name.head hne, by simp, hname _ (List.head_mem hne)⟩
    obtain rfl : d = c := by simpa using hsame
    exact hword (hstops d rfl)

/-- Where a word begins without the comments, no word goes on with them. -/
theorem endsInWord_of_kept (hsource : source.toList = before ++ word ++ after)
    (hkept : (withoutComments source).toList = before' ++ word ++ after')
    (hbefore : List.Forall₂ Kept before before') (hne : word ≠ [])
    (hword : ∀ c ∈ word, Text.isWordChar c = true) (hends : endsInWord before' = false) :
    endsInWord before = false := by
  rcases List.eq_nil_or_concat before' with rfl | ⟨before', d, rfl⟩
  · rw [List.forall₂_nil_right_iff.1 hbefore]
    rfl
  rw [List.concat_eq_append] at hkept hbefore hends
  obtain ⟨before, last, rfl, hfront, hlast⟩ := exists_of_forall₂_append hbefore
  obtain ⟨c, rest, hcd, hrest, rfl⟩ := List.forall₂_cons_right_iff.1 hlast
  obtain rfl := List.forall₂_nil_right_iff.1 hrest
  rw [endsInWord_concat] at hends ⊢
  by_contra hletter
  have hline : '\n' ∉ c :: word := newline_not_mem (List.forall_mem_cons.2
    ⟨by simpa using hletter, hword⟩)
  have hsame : d :: word = c :: word := eq_of_kept (by simpa using hsource) (by simpa using hkept)
    hfront (.cons hcd (forall₂_kept_refl _)) hline
    ⟨word.head hne, by simp, hword _ (List.head_mem hne)⟩
  obtain rfl : d = c := by simpa using hsame
  exact hletter hends

/-- A word in front of a mention is one without the comments as well, or is part of a comment. -/
theorem awaitsName_or_of_kept (hsource : source.toList = before ++ after)
    (hkept : (withoutComments source).toList = before' ++ after')
    (hbefore : List.Forall₂ Kept before before') (h : AwaitsName before) : AwaitsName before' ∨
      ∃ front earlier blanks, before = front ++ earlier ++ blanks ∧ IsTableWord earlier ∧
        AllBlank blanks ∧ ∀ i < earlier.length, Commented source (front.length + i) := by
  obtain ⟨front, earlier, blanks, rfl, hfront, hearlier, hne, hblanks⟩ := h
  obtain ⟨start', blanks', rfl, hstart, hblanks'⟩ := exists_of_append_forall₂ hbefore
  obtain ⟨front', earlier', rfl, hfront', hearlier'⟩ := exists_of_append_forall₂ hstart
  have hletter {c : Char} (hc : c ∈ earlier) := hearlier.isWordChar hc
  have hsource' : source.toList = front ++ earlier ++ (blanks ++ after) := by simpa using hsource
  have hkept' : (withoutComments source).toList = front' ++ earlier' ++ (blanks' ++ after') := by
    simpa using hkept
  rcases kept_or_blanked hsource' hkept' hfront'.length_eq.symm hearlier'.length_eq.symm
    (newline_not_mem fun c hc => hletter hc) with rfl | hblank
  · left
    refine ⟨front', earlier', blanks', rfl, ?_, hearlier, ?_, ?_⟩
    · exact endsInWord_of_forall₂_kept hfront' hfront
    · rintro rfl
      exact hne (List.forall₂_nil_right_iff.1 hblanks')
    · exact allBlank_of_kept hblanks' hblanks
  · right
    refine ⟨front, earlier, blanks, rfl, hearlier, hblanks, fun i hi => ?_⟩
    refine commented_of_ne hsource' hkept' hfront' hearlier' hi ?_
    rw [hblank, List.getElem?_eq_getElem hi, List.getElem?_replicate, if_pos hi]
    intro hsame
    have hword := hletter (List.getElem_mem hi)
    have hspace : Text.isWordChar ' ' = false := by decide +kernel
    rw [← Option.some.inj hsame, hspace] at hword
    cases hword

/-! ### The names of all tables -/

variable {command : Command} {table : String} {s : Statement}

/-- A statement names its table in a document where it does without the comments. -/
theorem exists_namedAt (h : NamedAt (withoutComments source).toList s table before' word gap after')
    (htable : IsName table) : ∃ before gap' after,
      NamedAt source.toList s table before word gap' after ∧ List.Forall₂ Kept before before' ∧
        List.Forall₂ Kept gap' gap ∧ List.Forall₂ Kept after after' := by
  have hkept := forall₂_withoutComments source
  rw [h.text_eq] at hkept
  obtain ⟨before, rest, hsource, hbefore, hrest⟩ := exists_of_forall₂_append hkept
  obtain ⟨mention, after, rfl, hmention, hafter⟩ := exists_of_forall₂_append hrest
  obtain ⟨start, name, rfl, hstart, hname⟩ := exists_of_forall₂_append hmention
  obtain ⟨word', gap', rfl, hword, hgap⟩ := exists_of_forall₂_append hstart
  have hspace : Text.isWordChar ' ' = false := by decide +kernel
  obtain rfl := eq_of_forall₂_kept hword fun hmem => by
    rw [h.isTableWord.isWordChar hmem] at hspace
    cases hspace
  obtain rfl := eq_of_forall₂_kept hname (htable.not_mem (by decide))
  refine ⟨before, gap', after, ?_, hbefore, hgap, hafter⟩
  exact {
    text_eq := hsource
    offset_le := by
      rw [hbefore.length_eq]
      exact h.offset_le
    le_stop := by
      have hle := h.le_stop
      simp only [List.length_append, hbefore.length_eq, hgap.length_eq] at hle ⊢
      exact hle
    isTableWord := h.isTableWord }

/-- The gap between the word and the name is the same with the comments, or one is in it. -/
theorem eq_or_commented (h : NamedAt source.toList s table before word gap after)
    (h' : NamedAt (withoutComments source).toList s table before' word gap' after')
    (hbefore : List.Forall₂ Kept before before') (hgap : List.Forall₂ Kept gap gap') :
    gap = gap' ∨ ∃ i < gap.length, Commented source ((before ++ word).length + i) := by
  refine or_iff_not_imp_left.2 fun hne => ?_
  obtain ⟨i, hi⟩ : ∃ i, gap'[i]? ≠ gap[i]? := by
    by_contra hsame
    push Not at hsame
    exact hne (List.ext_getElem? hsame).symm
  have hlt : i < gap.length := by
    by_contra hle
    have hlength := hgap.length_eq
    exact hi ((List.getElem?_eq_none (by omega)).trans (List.getElem?_eq_none (by omega)).symm)
  have hsource : source.toList = before ++ word ++ gap ++ (table.toList ++ after) := by
    simpa using h.text_eq
  have hkept : (withoutComments source).toList =
      before' ++ word ++ gap' ++ (table.toList ++ after') := by
    simpa using h'.text_eq
  have hfront : List.Forall₂ Kept (before ++ word) (before' ++ word) :=
    List.rel_append hbefore (forall₂_kept_refl _)
  exact ⟨i, hlt, commented_of_ne hsource hkept hfront hgap hlt hi⟩

/-- What is a mention without the comments is found with them, or its word is taken for a name. -/
theorem mentions_or_awaitsName (h : NamedAt source.toList s table before word gap after)
    (h' : NamedAt (withoutComments source).toList s table before' word gap after')
    (hmention : IsMention word gap table.toList after') (hends : endsInWord before' = false)
    (hbefore : List.Forall₂ Kept before before') (hafter : List.Forall₂ Kept after after') :
    table.toList ∈ mentions 0 false source.toList ∨ AwaitsName before := by
  have hname : table.toList ≠ [] := by
    obtain ⟨c, hc, -⟩ := hmention.letter
    exact List.ne_nil_of_mem (List.mem_of_mem_head? hc)
  have hfront : List.Forall₂ Kept (before ++ word ++ gap) (before' ++ word ++ gap) :=
    List.rel_append (List.rel_append hbefore (forall₂_kept_refl word)) (forall₂_kept_refl gap)
  have hstops : Stops Text.isWordChar after := stops_of_kept (by simpa using h.text_eq)
    (by simpa using h'.text_eq) hfront hafter hname hmention.name hmention.stops
  have hends : endsInWord ([] ++ before) = false := endsInWord_of_kept (by simpa using h.text_eq)
    (by simpa using h'.text_eq) hbefore h.isTableWord.ne_nil
    (fun c hc => h.isTableWord.isWordChar hc) hends
  have hmention : IsMention word gap table.toList after := { hmention with stops := hstops }
  rw [h.text_eq]
  exact mem_mentions hmention (Nat.zero_le _) hends

/-- The search finds the table of a statement unless it is overlooked. -/
theorem mem_or_overlooked (hs : s ∈ statements (withoutComments source))
    (hparse : Command.parse s.text = .ok command) (htable : command.tables = [table]) :
    table ∈ tableNames source ∨ Overlooked source s table := by
  have hname : IsName table := isName_of_parse hparse (by simp [htable])
  rcases exists_mention hs hparse htable with hquoted |
    ⟨before', word, gap', after', hnamed', hmention, hends, hawaits⟩
  · exact .inr (.quoted hquoted)
  obtain ⟨before, gap, after, hnamed, hbefore, hgap, hafter⟩ := exists_namedAt hnamed' hname
  rcases eq_or_commented hnamed hnamed' hbefore hgap with rfl | ⟨i, hi, hcommented⟩
  · rcases mentions_or_awaitsName hnamed hnamed' hmention hends hbefore hafter with hmem | hword
    · exact .inl (mem_tableNames_iff.2 ⟨hmem, explanation?_of_isName hname⟩)
    · have hsource : source.toList = before ++ (word ++ gap ++ table.toList ++ after) :=
        hnamed.text_eq
      rcases awaitsName_or_of_kept hsource hnamed'.text_eq hbefore hword with hnot |
        ⟨front, earlier, blanks, rfl, hearlier, hblanks, hcommented⟩
      · exact absurd hnot hawaits
      · exact .inr (.swallowed hnamed hearlier hblanks hcommented)
  · exact .inr (.interrupted hnamed hi hcommented)

/-- In a document without comments only a statement that begins with a string has a table that is
overlooked. -/
theorem mem_tableNames_of_not_isComment
    (hcomments : ∀ line ∈ source.toList.splitOn '\n', isComment line = false)
    (hs : s ∈ statements source) (hparse : Command.parse s.text = .ok command)
    (htable : command.tables = [table]) (hquoted : ¬ QuotedUpdate s.text) :
    table ∈ tableNames source := by
  have hsame := withoutComments_eq_self_iff.2 hcomments
  have hnone (i : Nat) : ¬ Commented source i := by simp [Commented, hsame]
  refine (mem_or_overlooked (hsame.symm ▸ hs) hparse htable).resolve_right ?_
  rintro (h | ⟨-, -, h⟩ | ⟨-, hearlier, -, h⟩)
  · exact hquoted h
  · exact hnone _ h
  · exact hnone _ (h 0 (List.length_pos_of_ne_nil hearlier.ne_nil))

/-- The names that are found in a document have no repetition and no reserved word among them, and
the table of every statement is one of them unless it is overlooked. -/
theorem tableNames_complete (source : String) : (tableNames source).Nodup ∧
    (∀ n ∈ tableNames source, ∀ word, (Kind.reserved? word).isSome →
      Text.lower n ≠ Text.lower word) ∧
    ∀ s ∈ statements (withoutComments source), ∀ command table,
      Command.parse s.text = .ok command → command.tables = [table] →
        table ∈ tableNames source ∨ Overlooked source s table :=
  ⟨nodup_tableNames source, fun _ hn _ hword => lower_ne_of_mem_tableNames hn hword,
    fun _ hs _ _ hparse htable => mem_or_overlooked hs hparse htable⟩

theorem tableNames_complete_select :
    ⟨13, "SELECT * FROM t;"⟩ ∈ statements (withoutComments "-- all of it\nSELECT * FROM t;") ∧
      Command.parse "SELECT * FROM t;" = .ok (.select "t" .all none) ∧
      ("t" ∈ tableNames "-- all of it\nSELECT * FROM t;" ∨
        Overlooked "-- all of it\nSELECT * FROM t;" ⟨13, "SELECT * FROM t;"⟩ "t") := by
  have hstatements : statements (withoutComments "-- all of it\nSELECT * FROM t;") =
      [⟨13, "SELECT * FROM t;"⟩] := rfl
  have hs : ⟨13, "SELECT * FROM t;"⟩ ∈
      statements (withoutComments "-- all of it\nSELECT * FROM t;") := by simp [hstatements]
  have hparse : Command.parse "SELECT * FROM t;" = .ok (.select "t" .all none) := by decide +kernel
  exact ⟨hs, hparse, (tableNames_complete _).2.2 _ hs _ "t" hparse rfl⟩

/-- A comment that ends in a word like `table` hides the table of the statement behind it. -/
example : tableNames "-- the old table\nUPDATE t SET a = 1 WHERE a == 2;" = [] := by
  decide +kernel

end Tabula.Editor
