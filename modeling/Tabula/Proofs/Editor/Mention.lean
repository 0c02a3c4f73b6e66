import Mathlib.Data.List.TakeWhile
import Tabula.Editor.Completion
import Tabula.Proofs.Command.FirstWord
import Tabula.Proofs.Token.Piece

/-!
# What the names of tables are found by

A mention is one of four words, blanks, and a name (`Editor.IsMention`). A document is searched for
mentions from left to right, and no two of them overlap. So a mention that begins where no word goes
on is found, unless its first word is taken for the name of a mention in front of it
(`Editor.mem_mentions`).

## Main definitions

* `Editor.IsMention` — a mention of a name, in front of a rest.
* `Editor.AwaitsName` — a text ends in a word that a name has to follow.
* `Editor.mention?` — what the search finds at the start of a text.
-/

namespace Tabula

/-! ### Word characters -/

namespace Text

variable {c : Char}

theorem CharSet.forall_contains {set : CharSet} {p : Char → Bool}
    (hp : (set.ranges.all fun r =>
      (List.range' r.1 (r.2 + 1 - r.1)).all fun n => p (Char.ofNat n)) = true)
    (hc : set.contains c = true) : p c = true := by
  obtain ⟨r, hr, hle, hle'⟩ := (set.contains_iff c).1 hc
  have hrange := List.all_eq_true.1 hp r hr
  have hmem : c.toNat ∈ List.range' r.1 (r.2 + 1 - r.1) := List.mem_range'_1.2 (by omega)
  simpa [Char.ofNat_toNat] using List.all_eq_true.1 hrange c.toNat hmem

theorem isWordChar_of_isBlank (h : isBlank c = true) : isWordChar c = false := by
  have hp := CharSet.forall_contains (p := fun c => !isWordChar c) (by decide +kernel) h
  simpa using hp

theorem isLetter_of_isAlpha (h : c.isAlpha = true) : isLetter c = true := by
  have hp := forall_isWordTail (p := fun c => !c.isAlpha || isLetter c) (by decide)
    (by simp [Lexeme.isWordTail, Char.isAlphanum, h] : Lexeme.isWordTail c = true)
  simpa [h] using hp

theorem isWordChar_of_isLetter (h : isLetter c = true) : isWordChar c = true :=
  forall_isLetter (p := isWordChar) (by decide +kernel) (by decide +kernel) h

theorem isWordChar_of_isWordTail (h : Lexeme.isWordTail c = true) : isWordChar c = true :=
  forall_isWordTail (p := isWordChar) (by decide +kernel) h

end Text

namespace Editor

/-- A text ends in a word character. -/
def endsInWord (s : List Char) : Bool := s.getLast?.any Text.isWordChar

/-- One of the words that the name of a table follows, in any letter case. -/
def IsTableWord (word : List Char) : Prop :=
  ∃ w ∈ tableWords, word.map Text.foldChar = w.toList

/-- A mention of a name and what stands behind it. -/
structure IsMention (word gap name rest : List Char) : Prop where
  word : IsTableWord word
  gap_ne_nil : gap ≠ []
  gap : AllBlank gap
  letter : ∃ c ∈ name.head?, Text.isLetter c = true
  name : ∀ c ∈ name, Text.isWordChar c = true
  stops : Stops Text.isWordChar rest

/-- A text ends in one of the words that the name of a table follows, and blanks. -/
def AwaitsName (s : List Char) : Prop :=
  ∃ front word gap, s = front ++ word ++ gap ∧ endsInWord front = false ∧ IsTableWord word ∧
    gap ≠ [] ∧ AllBlank gap

/-- The mention at the start of a text: its name and its length. -/
def mention? (s : List Char) : Option (List Char × Nat) :=
  tableWords.findSome? fun w => nameAfter? w s

variable {word gap name rest word' gap' name' rest' s : List Char} {w : String} {n : Nat}

/-! ### One mention -/

theorem IsTableWord.isLetter (h : IsTableWord word) {c : Char} (hc : c ∈ word) :
    Text.isLetter c = true := by
  obtain ⟨w, hw, hword⟩ := h
  have hall : tableWords.all (fun w => w.toList.all fun c => 'a' ≤ c && c ≤ 'z') = true := by decide
  exact List.all_eq_true.1 (List.all_eq_true.1 hall w hw) _ (hword ▸ List.mem_map_of_mem hc)

theorem IsTableWord.isWordChar (h : IsTableWord word) {c : Char} (hc : c ∈ word) :
    Text.isWordChar c = true :=
  Text.isWordChar_of_isLetter (h.isLetter hc)

theorem IsTableWord.ne_nil (h : IsTableWord word) : word ≠ [] := by
  rintro rfl
  obtain ⟨w, hw, hword⟩ := h
  have hall : tableWords.all (fun w => !w.toList.isEmpty) = true := by decide
  simpa [← hword] using List.all_eq_true.1 hall w hw

namespace IsMention

theorem stops_gap (h : IsMention word gap name rest) :
    Stops Text.isWordChar (gap ++ name ++ rest) := by
  obtain ⟨c, gap, rfl⟩ := List.exists_cons_of_ne_nil h.gap_ne_nil
  rintro d ⟨⟩
  exact Text.isWordChar_of_isBlank (h.gap c (by simp))

theorem stops_name (h : IsMention word gap name rest) : Stops Text.isBlank (name ++ rest) := by
  obtain ⟨c, hc, hletter⟩ := h.letter
  obtain ⟨name, rfl⟩ := List.head?_eq_some_iff.1 hc
  rintro d ⟨⟩
  by_contra hblank
  have hword := Text.isWordChar_of_isBlank (by simpa using hblank)
  rw [Text.isWordChar_of_isLetter hletter] at hword
  cases hword

theorem takeWhile_eq (h : IsMention word gap name rest) :
    (word ++ (gap ++ (name ++ rest))).takeWhile Text.isWordChar = word := by
  refine takeWhile_append_of_stops (fun c hc => h.word.isWordChar hc) ?_
  simpa using h.stops_gap

/-- A text begins with one mention at most. -/
theorem unique (h : IsMention word gap name rest) (h' : IsMention word' gap' name' rest')
    (heq : word ++ gap ++ name ++ rest = word' ++ gap' ++ name' ++ rest') :
    word = word' ∧ gap = gap' ∧ name = name' := by
  simp only [List.append_assoc] at heq
  obtain rfl : word = word' := by rw [← h.takeWhile_eq, heq, h'.takeWhile_eq]
  have heq := List.append_cancel_left heq
  obtain rfl : gap = gap' := by
    rw [← takeWhile_append_of_stops h.gap h.stops_name, heq,
      takeWhile_append_of_stops h'.gap h'.stops_name]
  have heq := List.append_cancel_left heq
  refine ⟨rfl, rfl, ?_⟩
  rw [← takeWhile_append_of_stops h.name h.stops, heq, takeWhile_append_of_stops h'.name h'.stops]

theorem nameAfter?_eq (h : IsMention word gap name rest)
    (hword : word.map Text.foldChar = w.toList) :
    nameAfter? w (word ++ gap ++ name ++ rest) =
      some (name, (word ++ gap ++ name).length) := by
  have hlength : w.length = word.length := by
    rw [← String.length_toList, ← hword, List.length_map]
  have hgap : (gap ++ (name ++ rest)).takeWhile Text.isBlank = gap :=
    takeWhile_append_of_stops h.gap h.stops_name
  have hrest : (gap ++ (name ++ rest)).dropWhile Text.isBlank = name ++ rest := by
    have hwhole := List.takeWhile_append_dropWhile (p := Text.isBlank) (l := gap ++ (name ++ rest))
    rw [hgap] at hwhole
    exact List.append_cancel_left hwhole
  have hname : (name ++ rest).takeWhile Text.isWordChar = name :=
    takeWhile_append_of_stops h.name h.stops
  obtain ⟨c, hc, hletter⟩ := h.letter
  have hletter : name.head?.any Text.isLetter = true := by simp [Option.mem_def.1 hc, hletter]
  simp only [nameAfter?, hlength, List.append_assoc, List.take_left, List.drop_left, hgap, hrest,
    hname, hword, hletter]
  simp [h.gap_ne_nil]
  omega

end IsMention

theorem exists_of_nameAfter? (hw : w ∈ tableWords) (h : nameAfter? w s = some (name, n)) :
    ∃ word gap rest, s = word ++ gap ++ name ++ rest ∧ IsMention word gap name rest ∧
      n = (word ++ gap ++ name).length := by
  simp only [nameAfter?, Option.ite_none_right_eq_some, Bool.and_eq_true, decide_eq_true_eq,
    Option.some.injEq, Prod.mk.injEq] at h
  obtain ⟨⟨⟨hword, hgap⟩, hletter⟩, rfl, rfl⟩ := h
  have hlength : (s.take w.length).length = w.length := by
    have hlength := congrArg List.length hword
    rwa [List.length_map, String.length_toList] at hlength
  refine ⟨s.take w.length, (s.drop w.length).takeWhile Text.isBlank,
    ((s.drop w.length).dropWhile Text.isBlank).dropWhile Text.isWordChar, ?_, ?_, ?_⟩
  · rw [List.append_assoc, List.takeWhile_append_dropWhile, List.append_assoc,
      List.takeWhile_append_dropWhile, List.take_append_drop]
  · exact {
      word := ⟨w, hw, hword⟩
      gap_ne_nil := by simpa using hgap
      gap := List.all_eq_true.1 List.all_takeWhile
      letter := by simpa [Option.any_eq_true] using hletter
      name := List.all_eq_true.1 List.all_takeWhile
      stops := stops_dropWhile _ _ }
  · rw [List.length_append, List.length_append, hlength]

/-- What the search finds at the start of a text is the mention there. -/
theorem mention?_eq_some_iff : mention? s = some (name, n) ↔
    ∃ word gap rest, s = word ++ gap ++ name ++ rest ∧ IsMention word gap name rest ∧
      n = (word ++ gap ++ name).length := by
  constructor
  · intro h
    obtain ⟨w, hw, h⟩ := List.exists_of_findSome?_eq_some h
    exact exists_of_nameAfter? hw h
  · rintro ⟨word, gap, rest, rfl, h, rfl⟩
    obtain ⟨w, hw, hword⟩ := h.word
    have hsome : (mention? (word ++ gap ++ name ++ rest)).isSome := by
      rw [mention?, List.findSome?_isSome_iff]
      exact ⟨w, hw, by rw [h.nameAfter?_eq hword]; rfl⟩
    obtain ⟨⟨name', n'⟩, hfound⟩ := Option.isSome_iff_exists.1 hsome
    obtain ⟨w', hw', hfound'⟩ := List.exists_of_findSome?_eq_some hfound
    obtain ⟨word', gap', rest', heq, h', rfl⟩ := exists_of_nameAfter? hw' hfound'
    obtain ⟨rfl, rfl, rfl⟩ := h.unique h' heq
    exact hfound

/-! ### All mentions -/

theorem mentions_cons (inWord : Bool) (c : Char) (s : List Char) : mentions 0 inWord (c :: s) =
    match if inWord then none else mention? (c :: s) with
    | some (name, n) => name :: mentions (n - 1) (Text.isWordChar c) s
    | none => mentions 0 (Text.isWordChar c) s := rfl

@[simp] theorem endsInWord_concat (s : List Char) (c : Char) :
    endsInWord (s ++ [c]) = Text.isWordChar c := by
  simp [endsInWord]

theorem endsInWord_append {t : List Char} (hne : t ≠ []) (s : List Char) :
    endsInWord (s ++ t) = endsInWord t := by
  rw [endsInWord, List.getLast?_append_of_ne_nil s hne, endsInWord]

theorem endsInWord_of_forall {t : List Char} (hne : t ≠ [])
    (ht : ∀ c ∈ t, Text.isWordChar c = true) : endsInWord t = true := by
  rw [endsInWord, List.getLast?_eq_some_getLast hne]
  exact ht _ (List.getLast_mem hne)

/-- A mention that goes on behind a place where no word does has its name there. -/
theorem IsMention.eq_of_append {before s : List Char} (h : IsMention word gap name rest)
    (heq : word ++ gap ++ name = before ++ s) (hbefore : before ≠ [])
    (hends : endsInWord before = false) (hs : ∃ c ∈ s.head?, Text.isBlank c = false) :
    before = word ++ gap := by
  have hnot {t u : List Char} (ht : ∀ c ∈ t, Text.isWordChar c = true) (hu : before = u ++ t) :
      t = [] := by
    by_contra hne
    rw [hu, endsInWord_append hne, endsInWord_of_forall hne ht] at hends
    cases hends
  rw [List.append_assoc] at heq
  rcases List.append_eq_append_iff.1 heq with ⟨t, rfl, hrest⟩ | ⟨t, hword, -⟩
  · rcases List.append_eq_append_iff.1 hrest with ⟨u, rfl, hname⟩ | ⟨u, hgap, rfl⟩
    · obtain rfl := hnot (t := u) (fun c hc => h.name c (by simp [hname, hc]))
        (List.append_assoc ..).symm
      rw [List.append_nil]
    · cases u with
      | nil => rw [hgap, List.append_nil]
      | cons c u =>
        obtain ⟨d, hd, hblank⟩ := hs
        cases hd
        rw [h.gap c (by simp [hgap])] at hblank
        cases hblank
  · exact absurd (hnot (u := []) (fun c hc => h.word.isWordChar (by simp [hword, hc])) rfl) hbefore

/-- If a mention reaches into another one, the first word of that is its name. -/
theorem IsMention.eq_of_overlap {before : List Char} (h : IsMention word gap name rest)
    (h' : IsMention word' gap' name' rest')
    (heq : before ++ (word ++ gap ++ name ++ rest) = word' ++ gap' ++ name' ++ rest')
    (hlength : before.length < (word' ++ gap' ++ name').length) (hbefore : before ≠ [])
    (hends : endsInWord before = false) : before = word' ++ gap' := by
  rcases List.append_eq_append_iff.1 heq with ⟨t, hmention, hrest⟩ | ⟨t, hfront, -⟩
  · cases t with
    | nil =>
      rw [hmention, List.append_nil] at hlength
      omega
    | cons c t =>
      refine h'.eq_of_append hmention hbefore hends ⟨c, rfl, ?_⟩
      obtain ⟨d, word, rfl⟩ := List.exists_cons_of_ne_nil h.word.ne_nil
      obtain rfl : d = c := by simpa using congrArg List.head? hrest
      by_contra hblank
      have hword := Text.isWordChar_of_isBlank (by simpa using hblank)
      rw [h.word.isWordChar (by simp)] at hword
      cases hword
  · rw [hfront, List.length_append] at hlength
    omega

/-- If a mention that is found reaches into another one, a name is awaited where that begins. -/
theorem IsMention.awaitsName {done before found : List Char} (h : IsMention word gap name rest)
    (hfound : mention? (before ++ (word ++ gap ++ name ++ rest)) = some (found, n))
    (hlength : before.length < n) (hbefore : before ≠ []) (hends : endsInWord before = false)
    (hdone : endsInWord done = false) : AwaitsName (done ++ before) := by
  obtain ⟨word', gap', rest', heq, h', rfl⟩ := mention?_eq_some_iff.1 hfound
  have hcut := h.eq_of_overlap h' heq hlength hbefore hends
  refine ⟨done, word', gap', ?_, hdone, h'.word, h'.gap_ne_nil, h'.gap⟩
  rw [hcut, List.append_assoc]

/-- A mention at a place where no word goes on is found, or its first word is taken for the name of
a mention in front of it. What is in front of the mention has been searched as far as `done`, and
the next `skip` characters belong to a mention already found. -/
theorem mem_mentions {skip : Nat} {done before : List Char} (h : IsMention word gap name rest)
    (hskip : skip ≤ before.length) (hends : endsInWord (done ++ before) = false) :
    name ∈ mentions skip (endsInWord done) (before ++ (word ++ gap ++ name ++ rest)) ∨
      AwaitsName (done ++ before) := by
  induction before generalizing done skip with
  | nil =>
    left
    obtain rfl : skip = 0 := by simpa using hskip
    rw [List.append_nil] at hends
    have hfound := mention?_eq_some_iff.2 ⟨word, gap, rest, rfl, h, rfl⟩
    obtain ⟨c, word, rfl⟩ := List.exists_cons_of_ne_nil h.word.ne_nil
    simp only [List.cons_append] at hfound
    simp only [List.nil_append, List.cons_append, mentions_cons, hends, Bool.false_eq_true,
      if_false, hfound, List.mem_cons_self]
  | cons c before ih =>
    have hlater {skip : Nat} (hskip : skip ≤ before.length) :
        name ∈ mentions skip (Text.isWordChar c) (before ++ (word ++ gap ++ name ++ rest)) ∨
          AwaitsName (done ++ c :: before) := by
      have hends : endsInWord (done ++ [c] ++ before) = false := by simpa using hends
      have hrest := ih hskip hends
      rwa [endsInWord_concat, List.append_assoc done] at hrest
    cases skip with
    | succ skip => exact hlater (by simpa using hskip)
    | zero =>
      rw [List.cons_append, mentions_cons]
      cases hdone : endsInWord done with
      | true => exact hlater (Nat.zero_le _)
      | false =>
        rw [if_neg Bool.false_ne_true]
        cases hfound : mention? (c :: (before ++ (word ++ gap ++ name ++ rest))) with
        | none => exact hlater (Nat.zero_le _)
        | some found =>
          obtain ⟨name', n⟩ := found
          by_cases hn : n - 1 ≤ before.length
          · exact (hlater hn).imp (fun hmem => List.mem_cons_of_mem _ hmem) id
          · right
            rw [endsInWord_append (List.cons_ne_nil c before)] at hends
            have hreaches : (c :: before).length < n := by
              rw [List.length_cons]
              omega
            exact h.awaitsName hfound hreaches (List.cons_ne_nil c before) hends hdone

/-! ### Names of tables -/

/-- The names found so far, and one more if it is new. -/
def found (names : List String) (n : String) : List String :=
  if n ∈ names then names else names ++ [n]

theorem mem_foldl_found {names earlier : List String} {n : String} :
    n ∈ names.foldl found earlier ↔ n ∈ earlier ∨ n ∈ names := by
  induction names generalizing earlier with
  | nil => simp
  | cons m names ih =>
    rw [List.foldl_cons, ih, found]
    split <;> grind

theorem nodup_foldl_found {names earlier : List String} (h : earlier.Nodup) :
    (names.foldl found earlier).Nodup := by
  induction names generalizing earlier with
  | nil => exact h
  | cons m names ih =>
    refine ih ?_
    rw [found]
    split
    · exact h
    · simpa [List.nodup_append, h] using fun a ha => ne_of_mem_of_not_mem ha ‹_›

theorem tableNames_eq (source : String) : tableNames source =
    (((mentions 0 false source.toList).map String.ofList).filter
      fun n => (explanation? n).isNone).foldl found [] := rfl

theorem nodup_tableNames (source : String) : (tableNames source).Nodup :=
  nodup_foldl_found .nil

theorem mem_tableNames_iff {source n : String} : n ∈ tableNames source ↔
    n.toList ∈ mentions 0 false source.toList ∧ explanation? n = none := by
  rw [tableNames_eq, mem_foldl_found, List.mem_filter, List.mem_map]
  simp only [List.not_mem_nil, false_or, Option.isNone_iff_eq_none]
  refine and_congr_left fun _ => ⟨?_, fun h => ⟨_, h, String.ofList_toList⟩⟩
  rintro ⟨name, hname, rfl⟩
  rwa [String.toList_ofList]

/-- Every reserved word is explained, in any letter case. -/
theorem exists_explanation {word : String} (h : (Kind.reserved? word).isSome) :
    ∃ e ∈ vocabulary, e.word = Text.lower word := by
  have hexplained : ∀ word ∈ Keyword.all.map Keyword.spelling ++ ["NULL", "TRUE", "FALSE"],
      ∃ e ∈ vocabulary, e.word = Text.lower word := by decide
  refine hexplained word (List.mem_append.2 ?_)
  unfold Kind.reserved? at h
  split at h
  · rename_i k hk
    rw [Keyword.ofSpelling?_eq_some_iff.1 hk]
    exact .inl (List.mem_map_of_mem k.mem_all)
  · right
    grind

/-- No name of a table is a reserved word. -/
theorem lower_ne_of_mem_tableNames {source n word : String} (hn : n ∈ tableNames source)
    (hword : (Kind.reserved? word).isSome) : Text.lower n ≠ Text.lower word := by
  obtain ⟨e, he, heq⟩ := exists_explanation hword
  have hnone := (mem_tableNames_iff.1 hn).2
  rw [explanation?, List.find?_eq_none] at hnone
  simpa [heq, eq_comm] using hnone e he

/-- A name is no word that is explained. -/
theorem explanation?_of_isName {n : String} (h : IsName n) : explanation? n = none := by
  have hreserved : ∀ e ∈ vocabulary,
      (Kind.reserved? (String.ofList (e.word.toList.map Char.toUpper))).isSome := by decide
  rw [explanation?, List.find?_eq_none]
  intro e he hword
  have hword : e.word = Text.lower n := by simpa using hword
  have hsome := hreserved e he
  have hupper : e.word.toList.map Char.toUpper = n.toList.map Char.toUpper := by
    rw [hword, Text.toList_lower, List.map_flatMap]
    exact flatMap_of_isWordTail (by decide) fun c hc => h.isWordTail hc
  rw [hupper, h.free] at hsome
  cases hsome

end Editor

end Tabula
