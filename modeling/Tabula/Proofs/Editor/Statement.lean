import Tabula.Proofs.Command.Named
import Tabula.Proofs.Editor.Mention
import Tabula.Proofs.Script.Partition

/-!
# Statements mention their tables

A statement about one table has a mention of it in the text of the script, unless a string stands
for its first word (`Editor.exists_mention`). No word goes on where the mention begins, and no other
mention can have begun in front of it: there are only other statements, which end in semicolons, and
lexemes that are no keywords that the name of a table follows (`Editor.not_awaitsName`).

## Main definitions

* `Editor.NamedAt` — a statement names its table at a place of a text.
* `Editor.QuotedUpdate` — a statement begins with a string that stands for a keyword.
-/

namespace Tabula

theorem IsWord.not_stops_append {word : List Char} (h : IsWord word) (rest : List Char) :
    ¬ Stops Lexeme.isWordTail (word ++ rest) := by
  obtain ⟨c, hc, -⟩ := h.letter
  intro hstops
  have hnot := hstops c (by simp [List.head?_append, Option.mem_def.1 hc])
  rw [h.isWordTail (List.mem_of_mem_head? hc)] at hnot
  cases hnot

/-- Only the capitals of a keyword are read as the keyword. -/
theorem Kind.eq_spelling_of_reserved? {word : String} {k : Keyword}
    (h : Kind.reserved? word = some (.keyword k)) : word = k.spelling := by
  unfold Kind.reserved? at h
  split at h
  · cases h
    exact Keyword.ofSpelling?_eq_some_iff.1 ‹_›
  · grind

namespace Editor

variable {before after gap rest word front : List Char} {l : Lexeme} {ls : List Lexeme} {c : Char}

/-! ### Words in front of the word -/

/-- One of the words that the name of a table follows is a keyword, if it is read as a word. -/
theorem IsTableWord.exists_reserved (h : IsTableWord word) (hword : IsWord word) :
    ∃ k ∈ tableKeywords,
      Kind.reserved? (String.ofList (word.map Char.toUpper)) = some (.keyword k) := by
  obtain ⟨w, hw, hfold⟩ := h
  have hupper : word.map Char.toUpper = w.toList.map Char.toUpper := by
    rw [← hfold, List.map_map]
    refine List.map_congr_left fun c hc => ?_
    have hp := forall_isWordTail (p := fun c => c.toUpper == (Text.foldChar c).toUpper) (by decide)
      (hword.isWordTail hc)
    exact beq_iff_eq.1 hp
  have hall : ∀ w ∈ tableWords, ∃ k ∈ tableKeywords,
      Kind.reserved? (String.ofList (w.toList.map Char.toUpper)) = some (.keyword k) := by decide
  rw [hupper]
  exact hall w hw

/-- In front of the word that the name of a table follows stand other words, and lexemes that end
in no word character. -/
theorem endsInWord_source_or (h : Lexeme.Picked (l.source ++ rest) l)
    (hkind : l.kind.isLeading = true) : endsInWord l.source = false ∨
      IsWord l.source ∧ ¬ IsTableWord l.source ∧ Stops Lexeme.isWordTail rest := by
  obtain ⟨r, hr, rest', heq, hgives⟩ := h.exists_gives
  obtain rfl : rest = rest' := List.append_cancel_left heq
  cases hgives with
  | reserved hword hrest hreserved =>
    refine .inr ⟨hword, fun htable => ?_, hrest⟩
    obtain ⟨k, hk, hsame⟩ := htable.exists_reserved hword
    obtain rfl : _ = Kind.keyword k := Option.some.inj (hreserved.symm.trans hsame)
    simp [Kind.isLeading, hk] at hkind
  | name hword hrest hfree =>
    refine .inr ⟨hword, fun htable => ?_, hrest⟩
    obtain ⟨k, -, hsame⟩ := htable.exists_reserved hword
    rw [hfree] at hsame
    cases hsame
  | float | integer => cases hkind
  | @string body =>
    left
    rw [endsInWord_concat]
    decide +kernel
  | symbol =>
    left
    have hp := forall_symbol (p := fun kind spelling => !kind.isLeading || !endsInWord spelling)
      (by decide +kernel) hr
    simpa [hkind] using hp

theorem isWordChar_of_isSkipped (h : isSkipped c = true) : Text.isWordChar c = false :=
  Text.isWordChar_of_isBlank (Text.isBlank_of_isSkipped h)

/-- No word goes on where a word begins. -/
theorem endsInWord_of_layout (h : Layout before ls rest) (hls : ∀ l ∈ ls, l.kind.isLeading = true)
    (hrest : ¬ Stops Lexeme.isWordTail rest) : endsInWord before = false := by
  induction h with
  | nil => rfl
  | @skip c s _ ls hc _ ih =>
    rcases eq_or_ne s [] with rfl | hne
    · exact isWordChar_of_isSkipped hc
    · exact (endsInWord_append hne [c]).trans (ih hls hrest)
  | @cons l s rest ls hl _ ih =>
    obtain ⟨hkind, hls⟩ := List.forall_mem_cons.1 hls
    rcases eq_or_ne s [] with rfl | hne
    · rw [List.append_nil]
      refine (endsInWord_source_or hl hkind).resolve_right fun hword => ?_
      exact hrest hword.2.2
    · exact (endsInWord_append hne l.source).trans (ih hls hrest)

/-- Two texts that end in a whole word are the same up to the word. -/
theorem eq_of_append_word {f p u v : List Char} (heq : p ++ u = f ++ v)
    (hp : endsInWord p = false) (hf : endsInWord f = false)
    (hu : ∀ c ∈ u, Text.isWordChar c = true) (hv : ∀ c ∈ v, Text.isWordChar c = true) : u = v := by
  rcases List.append_eq_append_iff.1 heq with ⟨t, rfl, rfl⟩ | ⟨t, rfl, rfl⟩
  · rcases eq_or_ne t [] with rfl | hne
    · rfl
    · rw [endsInWord_append hne, endsInWord_of_forall hne fun c hc => hu c (by simp [hc])] at hf
      cases hf
  · rcases eq_or_ne t [] with rfl | hne
    · rfl
    · rw [endsInWord_append hne, endsInWord_of_forall hne fun c hc => hv c (by simp [hc])] at hp
      cases hp

theorem endsInWord_of_allBlank {t : List Char} (h : AllBlank t) : endsInWord t = false := by
  rcases List.eq_nil_or_concat t with rfl | ⟨t, c, rfl⟩
  · rfl
  · rw [List.concat_eq_append] at h ⊢
    rw [endsInWord_concat]
    exact Text.isWordChar_of_isBlank (h c (by simp))

theorem endsInWord_of_semicolon {text : List Char} (h : text = [] ∨ ∃ body, text = body ++ [';']) :
    endsInWord text = false := by
  rcases h with rfl | ⟨body, rfl⟩
  · rfl
  · rw [endsInWord_concat]
    decide +kernel

theorem endsInWord_of_closed (h : Script.Closed front) : endsInWord front = false := by
  obtain ⟨text, blanks, rfl, hblanks, htext⟩ := h
  rcases eq_or_ne blanks [] with rfl | hne
  · rw [List.append_nil]
    exact endsInWord_of_semicolon htext
  · rw [endsInWord_append hne]
    exact endsInWord_of_allBlank hblanks

/-- No word goes on where a word of a statement begins. -/
theorem endsInWord_front (hfront : Script.Closed front) (h : Layout before ls rest)
    (hls : ∀ l ∈ ls, l.kind.isLeading = true) (hrest : ¬ Stops Lexeme.isWordTail rest) :
    endsInWord (front ++ before) = false := by
  rcases eq_or_ne before [] with rfl | hne
  · rw [List.append_nil]
    exact endsInWord_of_closed hfront
  · rw [endsInWord_append hne]
    exact endsInWord_of_layout h hls hrest

theorem IsTableWord.endsInWord (h : IsTableWord word) (s : List Char) :
    Editor.endsInWord (s ++ word) = true := by
  rw [endsInWord_append h.ne_nil]
  exact endsInWord_of_forall h.ne_nil fun c hc => h.isWordChar hc

/-- The word that a name has to follow stands right in front of the blanks at the end. -/
theorem AwaitsName.exists_eq {text blanks : List Char} (h : AwaitsName (text ++ blanks))
    (hblanks : AllBlank blanks) (htext : Stops Text.isBlank text.reverse) :
    ∃ f word, text = f ++ word ∧ endsInWord f = false ∧ IsTableWord word := by
  obtain ⟨f, word, gap, heq, hf, hword, -, hgap⟩ := h
  have hstops : Stops Text.isBlank (f ++ word).reverse := by
    rw [stops_reverse_append hword.ne_nil]
    intro c hc
    by_contra hblank
    have hnot := Text.isWordChar_of_isBlank (by simpa using hblank)
    rw [hword.isWordChar (List.mem_reverse.1 (List.mem_of_mem_head? hc))] at hnot
    cases hnot
  refine ⟨f, word, ?_, hf, hword⟩
  rw [← Text.trimEnd_padded htext hblanks, heq, Text.trimEnd_padded hstops hgap]

theorem not_awaitsName_of_closed (hfront : Script.Closed front) (h : AllBlank before) :
    ¬ AwaitsName (front ++ before) := by
  intro hawaits
  obtain ⟨text, blanks, rfl, hblanks, htext⟩ := hfront
  have hstops : Stops Text.isBlank text.reverse := by
    rcases htext with rfl | ⟨body, rfl⟩
    · nofun
    · exact (stops_reverse_append (by simp)).2 Script.stops_semicolon
  rw [List.append_assoc] at hawaits
  obtain ⟨f, word, rfl, -, hword⟩ := hawaits.exists_eq (hblanks.append h) hstops
  have hends := endsInWord_of_semicolon htext
  rw [hword.endsInWord f] at hends
  cases hends

/-- In front of the word that the name of a table follows there is no other such word. -/
theorem not_awaitsName (hfront : Script.Closed front) (h : Layout before ls rest)
    (hls : ∀ l ∈ ls, l.kind.isLeading = true) : ¬ AwaitsName (front ++ before) := by
  rcases List.eq_nil_or_concat ls with rfl | ⟨ls, l, rfl⟩
  · exact not_awaitsName_of_closed hfront h.allBlank
  rw [List.concat_eq_append] at h hls
  obtain ⟨body, blanks, rfl, hbody, hl, hblanks⟩ := h.exists_split
  intro hawaits
  rw [← List.append_assoc body, ← List.append_assoc front, ← List.append_assoc front] at hawaits
  obtain ⟨hne, htrimmed⟩ := hl.trimmed_source
  have hstops : Stops Text.isBlank (front ++ body ++ l.source).reverse :=
    (stops_reverse_append hne).2 htrimmed.back
  obtain ⟨f, word, hsame, hf, hword⟩ := hawaits.exists_eq hblanks.allBlank hstops
  -- the last lexeme ends in a word, so it is a word as a whole, and another one
  have hends : endsInWord l.source = true := by
    rw [← endsInWord_append hne, hsame, hword.endsInWord]
  obtain ⟨hlword, hnot, -⟩ :=
    (endsInWord_source_or hl (hls l (by simp))).resolve_left (by simp [hends])
  have hp : endsInWord (front ++ body) = false :=
    endsInWord_front hfront hbody (fun l hl => hls l (by simp [hl])) (hlword.not_stops_append _)
  have hsource := eq_of_append_word hsame hp hf
    (fun c hc => Text.isWordChar_of_isWordTail (hlword.isWordTail hc))
    fun c hc => hword.isWordChar hc
  exact hnot (hsource ▸ hword)

/-! ### The place of the name -/

/-- A keyword that the name of a table follows is one of the words that are searched for. -/
theorem isTableWord_source {w : Keyword} (h : Lexeme.Picked (l.source ++ rest) l)
    (hkind : l.kind = .keyword w) (hw : w ∈ tableKeywords) :
    IsWord l.source ∧ IsTableWord l.source := by
  have hall : ∀ w ∈ tableKeywords, ∃ t ∈ tableWords,
      w.spelling.toList.map Char.toLower = t.toList := by decide
  obtain ⟨r, hr, rest', -, hgives⟩ := h.exists_gives
  cases hgives with
  | @reserved word _ _ hword _ hreserved =>
    obtain rfl : _ = Kind.keyword w := hkind
    have hcapitals := Kind.eq_spelling_of_reserved? hreserved
    have hfold : word.map Text.foldChar = (word.map Char.toUpper).map Char.toLower := by
      rw [List.map_map]
      refine List.map_congr_left fun c hc => ?_
      have hp := forall_isWordTail (p := fun c => Text.foldChar c == c.toUpper.toLower) (by decide)
        (hword.isWordTail hc)
      exact beq_iff_eq.1 hp
    obtain ⟨t, ht, hlower⟩ := hall w hw
    refine ⟨hword, t, ht, ?_⟩
    rw [hfold, ← hlower, ← hcapitals, String.toList_ofList]
  | symbol =>
    have hp := forall_symbol (p := fun kind _ =>
      match kind with
      | .keyword _ => false
      | _ => true) (by decide) hr
    obtain rfl : _ = Kind.keyword w := hkind
    cases hp
  | _ => cases hkind

theorem isWord_source (h : Lexeme.Picked (l.source ++ rest) l) (hkind : l.kind = .identifier) :
    IsWord l.source ∧ l.source = l.text.toList ∧ Stops Lexeme.isWordTail rest := by
  have hends := h.endsBefore
  have hspells := h.spells 0
  rw [Lexeme.EndsBefore, hkind] at hends
  rw [Token.Spells, Lexeme.token, hkind] at hspells
  refine ⟨?_, hspells, hends⟩
  obtain ⟨r, hr, rest', -, hgives⟩ := h.exists_gives
  rw [hspells]
  exact isWord_iff.1 (hgives.isName hr hkind).word

/-- What stands behind the name of a table does not make the name longer. -/
theorem stops_following (h : Layout after ([] ++ l :: ls) []) (hkind : l.kind.isFollowing = true)
    (hafter : Stops Lexeme.isWordTail after) (back : List Char) :
    Stops Text.isWordChar (after ++ back) := by
  obtain ⟨gap, later, rfl, hgap, hl, -⟩ := h.exists_split
  cases gap with
  | cons c gap =>
    rintro d ⟨⟩
    exact Text.isWordChar_of_isBlank (hgap.allBlank c (by simp))
  | nil =>
    rw [List.nil_append] at hafter ⊢
    obtain ⟨r, hr, rest', -, hgives⟩ := hl.exists_gives
    have hsource : Stops Text.isWordChar l.source := by
      cases hgives with
      | reserved hword => exact absurd hafter (hword.not_stops_append later)
      | symbol =>
        have hp := forall_symbol (p := fun kind spelling =>
          !kind.isFollowing || spelling.head?.all fun c => !Text.isWordChar c)
          (by decide +kernel) hr
        intro c hc
        simpa [hkind, Option.mem_def.1 hc] using hp
      | _ => cases hkind
    rw [List.append_assoc]
    exact stops_append hl.trimmed_source.1 hsource _

/-! ### The mention of a table -/

/-- A statement of a text names its table behind a word, with a gap between the word and the
name. -/
structure NamedAt (text : List Char) (s : Statement) (table : String)
    (before word gap after : List Char) : Prop where
  text_eq : text = before ++ (word ++ gap ++ table.toList ++ after)
  offset_le : s.offset ≤ before.length
  le_stop : (before ++ (word ++ gap ++ table.toList)).length ≤ s.stop
  isTableWord : IsTableWord word

/-- A statement begins with a string that stands for the keyword `UPDATE`. -/
def QuotedUpdate (text : String) : Prop :=
  ∃ body rest, text.toList = '\'' :: body ++ '\'' :: rest ∧ '\'' ∉ body ∧
    Text.upper (String.ofList body) = "UPDATE"

variable {text content table : String} {command : Command} {s : Statement}

theorem quotedUpdate_of_layout (h : Layout text.toList (l :: ls) [])
    (htext : Stops Text.isBlank text.toList) (hkind : l.kind = .string)
    (hupper : Text.upper l.text = "UPDATE") : QuotedUpdate text := by
  obtain ⟨hl, rest, hrest⟩ := h.exists_append_of_stops htext
  have hspells := hl.spells 0
  rw [Token.Spells, Lexeme.token, hkind] at hspells
  refine ⟨l.text.toList, rest, ?_, hspells.1, by rwa [String.ofList_toList]⟩
  rw [hrest, hspells.2]
  simp

/-- A mention is a keyword that the name of a table follows, blanks, and the name. -/
theorem isMention_of_picked {w : Keyword} {name u : Lexeme} {later : List Char}
    (hl : Lexeme.Picked (l.source ++ (gap ++ (name.source ++ later))) l)
    (hkind : l.kind = .keyword w) (hw : w ∈ tableKeywords) (hgap : AllBlank gap)
    (hname : Lexeme.Picked (name.source ++ later) name) (hidentifier : name.kind = .identifier)
    (hlater : Layout later (u :: ls) []) (hu : u.kind.isFollowing = true) (back : List Char) :
    IsMention l.source gap name.text.toList (later ++ back) := by
  obtain ⟨hword, hsource, hstops⟩ := isWord_source hname hidentifier
  have hends := hl.endsBefore
  rw [Lexeme.EndsBefore, hkind] at hends
  rw [← hsource]
  exact {
    word := (isTableWord_source hl hkind hw).2
    gap_ne_nil := by
      rintro rfl
      exact hword.not_stops_append later hends
    gap := hgap
    letter := by
      obtain ⟨c, hc, hletter⟩ := hword.letter
      exact ⟨c, hc, Text.isLetter_of_isAlpha hletter⟩
    name := fun c hc => Text.isWordChar_of_isWordTail (hword.isWordTail hc)
    stops := stops_following hlater hu hstops back }

/-- A statement about one table mentions it, or begins with a string. -/
theorem exists_mention_of_parse (h : Command.parse text = .ok command)
    (htable : command.tables = [table]) (htext : Stops Text.isBlank text.toList) :
    QuotedUpdate text ∨ ∃ before ls word gap after,
      text.toList = before ++ (word ++ gap ++ table.toList ++ after) ∧
      Layout before ls (word ++ (gap ++ table.toList ++ after)) ∧
      (∀ l ∈ ls, l.kind.isLeading = true) ∧ IsWord word ∧
      ∀ back, IsMention word gap table.toList (after ++ back) := by
  obtain ⟨pre, word, n, u, post, htokens, hn, rfl, hu, hpre, hword⟩ :=
    Command.exists_table_of_parse h htable
  obtain ⟨ls, hlayout, hls⟩ := Layout.exists_of_scan (scan_of_statementTokens htokens)
  simp only [List.map_append, List.map_cons] at hls
  obtain ⟨ls, ms, rfl, hfront, hms⟩ := List.map_eq_append_iff.1 hls.symm
  obtain ⟨w, ms, rfl, hw, hms⟩ := List.map_eq_cons_iff.1 hms
  obtain ⟨name, ms, rfl, hname, hms⟩ := List.map_eq_cons_iff.1 hms
  obtain ⟨v, ms, rfl, hv, -⟩ := List.map_eq_cons_iff.1 hms
  rw [Lexeme.token_eq_unplaced_iff] at hw hname hv
  rcases hword with ⟨k, hk, hkind⟩ | ⟨rfl, hkind, hupper⟩
  · right
    obtain ⟨before, rest, htext, hbefore, hpicked, hrest⟩ := hlayout.exists_split
    have hrest : Layout rest ([] ++ name :: v :: ms) [] := hrest
    obtain ⟨gap, after, rfl, hgap, hpickedName, hafter⟩ := hrest.exists_split
    rw [List.append_nil] at hpickedName hpicked
    have hmention := isMention_of_picked hpicked (hw.1.trans hkind) hk hgap.allBlank hpickedName
      (hname.1.trans hn) hafter (hv.1 ▸ hu)
    have hsource := (isWord_source hpickedName (hname.1.trans hn)).2.1
    rw [hsource, hname.2] at htext hbefore
    refine ⟨before, ls, w.source, gap, after, ?_, ?_, fun l hl => ?_, ?_, hname.2 ▸ hmention⟩
    · rw [htext]
      simp only [List.append_assoc]
    · simpa only [List.append_assoc, List.append_nil] using hbefore
    · obtain ⟨t, ht, htl⟩ := List.mem_map.1 (hfront ▸ List.mem_map_of_mem hl)
      rw [(Lexeme.token_eq_unplaced_iff.1 htl.symm).1]
      exact hpre t ht
    · exact (isTableWord_source hpicked (hw.1.trans hkind) hk).1
  · left
    obtain rfl : ls = [] := by simpa using hfront
    exact quotedUpdate_of_layout hlayout htext (hw.1.trans hkind) (hw.2 ▸ hupper)

/-- Every statement of a text about one table mentions it where the search goes, or begins with a
string. -/
theorem exists_mention (hs : s ∈ Script.statements content)
    (h : Command.parse s.text = .ok command) (htable : command.tables = [table]) :
    QuotedUpdate s.text ∨ ∃ before word gap after,
      NamedAt content.toList s table before word gap after ∧
      IsMention word gap table.toList after ∧ endsInWord before = false ∧ ¬ AwaitsName before := by
  have hparted := Script.parted_statements content
  obtain ⟨front, back, hcontent, hoffset, hfront⟩ := hparted.exists_closed hs
  have hmention := exists_mention_of_parse h htable (hparted.trimmed hs).2.front
  refine hmention.imp id ?_
  rintro ⟨before, ls, word, gap, after, htext, hbefore, hls, hword, hmention⟩
  refine ⟨front ++ before, word, gap, after ++ back, ?_, hmention back,
    endsInWord_front hfront hbefore hls (hword.not_stops_append _),
    not_awaitsName hfront hbefore hls⟩
  have hlength := congrArg List.length htext
  simp only [List.length_append, String.length_toList] at hlength
  rw [htext] at hcontent
  exact {
    text_eq := by simp only [hcontent, List.append_assoc]
    offset_le := by simp [hoffset]
    le_stop := by
      simp only [Statement.stop, hoffset, List.length_append, String.length_toList]
      omega
    isTableWord := (hmention back).word }

end Editor

end Tabula
