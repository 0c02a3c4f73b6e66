import Mathlib.Data.List.Sort
import Tabula.Proofs.Script.Semicolon
import Tabula.Proofs.Token.Piece

/-!
# How a script is partitioned

The statements of a script are slices of it (`Script.partition_statements`): they stand at their
offsets one behind the other with nothing but blanks around them, each ends at a semicolon outside
quotes and goes over none, and what is left behind the last of these is a statement if it is not
blank. Alone, a statement is the one statement of its text.

A line goes on if something is left behind its last semicolon, so the test that the console makes,
of the last character and of the number of all quotes, tells whether all statements of the line are
terminated (`Script.isUnfinished_eq_false_iff`).

## Main definitions

* `Script.terminators`, `Script.remainder` — the semicolons that end statements, and what is left
  behind the last of them.
* `Script.Partition` — what it means that statements partition a script.
* `Script.Parted` — the same as a relation that goes from statement to statement.
-/

namespace Tabula

/-- The offset behind the last character of a statement. -/
def Statement.stop (s : Statement) : Nat := s.offset + s.text.length

namespace Script

/-- The offsets of the semicolons with an even number of quotes in front. -/
def terminators (content : String) : List Nat :=
  (List.range content.length).filter fun p =>
    content.toList[p]? = some ';' ∧ (content.toList.take p).count '\'' % 2 = 0

/-- What is left of a text behind the last of these semicolons, or all of it. -/
def remainder (content : String) : List Char :=
  content.toList.drop ((terminators content).getLast?.elim 0 (· + 1))

/-- Statements partition a script. -/
structure Partition (content : String) (parts : List Statement) : Prop where
  slice : ∀ s ∈ parts, (content.toList.drop s.offset).take s.text.length = s.text.toList
  ordered : parts.Pairwise fun s t => s.stop ≤ t.offset
  blank : ∀ p c, content.toList[p]? = some c → (∀ s ∈ parts, p < s.offset ∨ s.stop ≤ p) →
    Text.isBlank c = true
  trimmed : ∀ s ∈ parts, s.text ≠ "" ∧ Text.Trimmed s.text.toList
  terminated : ∀ s ∈ parts.dropLast, s.stop - 1 ∈ terminators content
  terminates : ∀ s ∈ parts, ∀ p ∈ terminators content, s.offset ≤ p → p < s.stop → p + 1 = s.stop
  length_eq : parts.length =
    (terminators content).length + if (remainder content).all Text.isBlank then 0 else 1

/-! ### Semicolons that end statements -/

variable {q : Bool} {pos start : Nat} {s body rest : List Char} {parts : List Statement}

theorem mem_outside_bounds {p : Nat} (h : p ∈ outside q pos s) : pos ≤ p ∧ p < pos + s.length := by
  obtain ⟨before, after, rfl, -, rfl⟩ := mem_outside.1 h
  simp

theorem outside_eq_nil (h : outside q pos s = []) (pos' : Nat) : outside q pos' s = [] := by
  rw [← List.length_eq_zero_iff, length_outside q pos' pos, h, List.length_nil]

theorem pairwise_outside (q : Bool) (pos : Nat) (s : List Char) :
    (outside q pos s).Pairwise (· < ·) := by
  fun_induction outside q pos s with
  | case1 => exact .nil
  | case2 _ _ _ ih => exact ih
  | case3 q pos c s _ _ ih =>
    exact List.pairwise_cons.2 ⟨fun p hp => (mem_outside_bounds hp).1, ih⟩
  | case4 _ _ _ _ _ _ ih => exact ih

theorem mem_terminators_iff {content : String} {p : Nat} : p ∈ terminators content ↔
    content.toList[p]? = some ';' ∧ (content.toList.take p).count '\'' % 2 = 0 := by
  rw [terminators, List.mem_filter, List.mem_range, decide_eq_true_iff]
  refine and_iff_right_of_imp fun h => ?_
  rw [← String.length_toList]
  exact (List.getElem?_eq_some_iff.1 h.1).1

theorem terminators_eq (content : String) :
    terminators content = outside false 0 content.toList := by
  have hpairwise : (terminators content).Pairwise (· < ·) :=
    List.pairwise_lt_range.filter _
  refine hpairwise.eq_of_mem_iff (pairwise_outside ..) fun p => ?_
  rw [mem_terminators_iff, mem_outside_iff]

/-! ### Cutting off the first statement -/

/-- A text without semicolons outside quotes is one piece. -/
theorem pieces_of_outside_eq_nil (h : outside q pos s = []) : pieces q s = [s] := by
  fun_induction outside q pos s with
  | case1 => rfl
  | case2 q pos s ih => simp [pieces, ih h, Text.consFirst]
  | case3 => cases h
  | case4 q pos c s hc hsemi ih => simp [pieces, hc, hsemi, ih h, Text.consFirst]

/-- The first piece ends at the first semicolon outside quotes. -/
theorem pieces_append (h : outside q pos body = []) (hquoted : quoted q body = false)
    (rest : List Char) : pieces q (body ++ ';' :: rest) = (body ++ [';']) :: pieces false rest := by
  fun_induction outside q pos body with
  | case1 q pos =>
    obtain rfl : q = false := hquoted
    simp [pieces]
  | case2 q pos s ih => simp [pieces, ih h hquoted, Text.consFirst]
  | case3 => cases h
  | case4 q pos c s hc hsemi ih =>
    have hlater := ih h (by simpa [quoted, hc] using hquoted)
    simp [pieces, hc, hsemi, hlater, Text.consFirst]

theorem exists_first (h : outside q pos s ≠ []) : ∃ body rest, s = body ++ ';' :: rest ∧
    outside q pos body = [] ∧ quoted q body = false := by
  fun_induction outside q pos s with
  | case1 => exact absurd rfl h
  | case2 q pos s ih =>
    obtain ⟨body, rest, rfl, hnone, hquoted⟩ := ih h
    exact ⟨'\'' :: body, rest, rfl, by simpa [outside], by simpa [quoted]⟩
  | case3 q pos c s hc hsemi ih =>
    simp only [Bool.and_eq_true, decide_eq_true_eq, Bool.not_eq_true'] at hsemi
    exact ⟨[], s, by simp [hsemi.1], rfl, hsemi.2⟩
  | case4 q pos c s hc hsemi ih =>
    obtain ⟨body, rest, rfl, hnone, hquoted⟩ := ih h
    exact ⟨c :: body, rest, rfl, by simpa [outside, hc, hsemi], by simpa [quoted, hc]⟩

/-! ### Statements one behind the other -/

/-- A text is cut into statements if its first character has the offset `start`. -/
inductive Parted : Nat → List Char → List Statement → Prop
  | blank {start : Nat} {s : List Char} : AllBlank s → Parted start s []
  | unfinished {start : Nat} {before body after : List Char} : AllBlank before → AllBlank after →
      body ≠ [] → Text.Trimmed body → outside false 0 body = [] →
      Parted start (before ++ body ++ after) [⟨start + before.length, String.ofList body⟩]
  | closed {start : Nat} {before body rest : List Char} {parts : List Statement} :
      AllBlank before → Text.Trimmed (body ++ [';']) → outside false 0 body = [] →
      quoted false body = false → Parted (start + (before.length + body.length + 1)) rest parts →
      Parted start (before ++ body ++ ';' :: rest)
        (⟨start + before.length, String.ofList (body ++ [';'])⟩ :: parts)

/-- What is in front of a statement ends in a semicolon and blanks, or is blank. -/
def Closed (front : List Char) : Prop :=
  ∃ text blanks, front = text ++ blanks ∧ AllBlank blanks ∧
    (text = [] ∨ ∃ body, text = body ++ [';'])

variable {before core after : List Char}

theorem statementsFrom_blank (h : AllBlank s) (start : Nat) (ps : List (List Char)) :
    statementsFrom start (s :: ps) = statementsFrom (start + s.length) ps := by
  simp [statementsFrom, Text.trimStart_eq_nil h]

theorem statementsFrom_padded (hcore : Text.Trimmed core) (hne : core ≠ [])
    (hbefore : AllBlank before) (hafter : AllBlank after) (start : Nat) (ps : List (List Char)) :
    statementsFrom start ((before ++ core ++ after) :: ps) =
      ⟨start + before.length, String.ofList core⟩ ::
        statementsFrom (start + (before ++ core ++ after).length) ps := by
  have hstart : Text.trimStart (before ++ core ++ after) = core ++ after := by
    rw [List.append_assoc]
    exact Text.trimStart_padded hbefore (stops_append hne hcore.front after)
  have hoffset : (before ++ core ++ after).length - (core ++ after).length = before.length := by
    simp only [List.length_append]
    omega
  rw [statementsFrom]
  simp only [hstart, Text.trimEnd_padded hcore.back hafter, hoffset]
  exact if_neg (by simp [hne])

theorem statementsFrom_trimmed (hcore : Text.Trimmed core) (hne : core ≠ [])
    (ps : List (List Char)) :
    statementsFrom 0 (core :: ps) = ⟨0, String.ofList core⟩ :: statementsFrom core.length ps := by
  have hnil : AllBlank [] := nofun
  simpa using statementsFrom_padded hcore hne hnil hnil 0 ps

theorem stops_semicolon : Stops Text.isBlank [';'] := by
  rintro c ⟨⟩
  decide

theorem trimmed_concat (h : Stops Text.isBlank body) : Text.Trimmed (body ++ [';']) := by
  refine ⟨?_, (stops_reverse_append (by simp)).2 stops_semicolon⟩
  rcases eq_or_ne body [] with rfl | hne
  · exact stops_semicolon
  · exact stops_append hne h _

/-- The statements of a text are cut off it one after another. -/
theorem parted_statementsFrom (start : Nat) (s : List Char) :
    Parted start s (statementsFrom start (pieces false s)) := by
  induction hn : s.length using Nat.strongRecOn generalizing start s with
  | ind n ih =>
    subst hn
    by_cases hnone : outside false 0 s = []
    · rw [pieces_of_outside_eq_nil hnone]
      rcases Text.allBlank_or_exists_trimmed s with hblank |
        ⟨before, core, after, rfl, hbefore, hafter, hne, hcore⟩
      · rw [statementsFrom_blank hblank]
        exact .blank hblank
      · rw [hafter.unmarked.outside_append_right, hbefore.unmarked.outside_append_left] at hnone
        rw [statementsFrom_padded hcore hne hbefore hafter]
        exact .unfinished hbefore hafter hne hcore (outside_eq_nil hnone 0)
    · obtain ⟨body, rest, rfl, hnone, hquoted⟩ := exists_first hnone
      rw [pieces_append hnone hquoted]
      obtain ⟨before, body, rfl, hbefore, hfront⟩ := Text.exists_blanks_append body
      rw [hbefore.unmarked.outside_append_left] at hnone
      rw [quoted_append, hbefore.unmarked.quoted] at hquoted
      have hpiece : before ++ body ++ [';'] = before ++ (body ++ [';']) ++ [] := by simp
      have hlength :
          (before ++ (body ++ [';']) ++ []).length = before.length + body.length + 1 := by
        simp [Nat.add_assoc]
      rw [hpiece, statementsFrom_padded (trimmed_concat hfront) (by simp) hbefore
        (by simp [AllBlank]), hlength]
      exact .closed hbefore (trimmed_concat hfront) (outside_eq_nil hnone 0) hquoted
        (ih rest.length (by simp; omega) _ rest rfl)

theorem parted_statements (script : String) : Parted 0 script.toList (statements script) :=
  parted_statementsFrom 0 script.toList

/-- The first statement of a text ends at its first semicolon outside quotes. -/
theorem outside_closed (hbefore : AllBlank before) (hnone : outside false 0 body = [])
    (hquoted : quoted false body = false) (start : Nat) (rest : List Char) :
    outside false start (before ++ body ++ ';' :: rest) =
      (start + (before.length + body.length)) ::
        outside false (start + (before.length + body.length + 1)) rest := by
  rw [List.append_assoc, hbefore.unmarked.outside_append_left, outside_append,
    outside_eq_nil hnone, hquoted, Nat.add_assoc]
  rfl

namespace Parted

variable {p : Statement}

/-- A statement stands in the text behind other statements. -/
theorem exists_closed (h : Parted start s parts) (hp : p ∈ parts) : ∃ front back,
    s = front ++ p.text.toList ++ back ∧ p.offset = start + front.length ∧ Closed front := by
  induction h with
  | blank => cases hp
  | @unfinished start before body after hbefore =>
    obtain rfl := List.mem_singleton.1 hp
    exact ⟨before, after, by simp, rfl, [], before, rfl, hbefore, .inl rfl⟩
  | @closed start before body rest parts hbefore _ _ _ _ ih =>
    rcases List.mem_cons.1 hp with rfl | hp
    · exact ⟨before, rest, by simp, rfl, [], before, rfl, hbefore, .inl rfl⟩
    · obtain ⟨front, back, rfl, hoffset, text, blanks, rfl, hblanks, htext⟩ := ih hp
      refine ⟨before ++ body ++ ';' :: (text ++ blanks), back, by simp, ?_,
        before ++ body ++ ';' :: text, blanks, by simp, hblanks, .inr ?_⟩
      · rw [hoffset]
        simp only [List.length_append, List.length_cons]
        omega
      · rcases htext with rfl | ⟨body', rfl⟩
        · exact ⟨before ++ body, rfl⟩
        · exact ⟨before ++ body ++ ';' :: body', by simp⟩

theorem slice (h : Parted start s parts) (hp : p ∈ parts) :
    ∃ front back, s = front ++ p.text.toList ++ back ∧ p.offset = start + front.length := by
  obtain ⟨front, back, hs, hoffset, -⟩ := h.exists_closed hp
  exact ⟨front, back, hs, hoffset⟩

theorem bounds (h : Parted start s parts) (hp : p ∈ parts) :
    start ≤ p.offset ∧ p.stop ≤ start + s.length := by
  obtain ⟨front, back, rfl, hoffset⟩ := h.slice hp
  simp only [Statement.stop, hoffset, List.length_append, String.length_toList]
  omega

theorem trimmed (h : Parted start s parts) (hp : p ∈ parts) :
    p.text ≠ "" ∧ Text.Trimmed p.text.toList := by
  induction h with
  | blank => cases hp
  | unfinished _ _ hne hbody =>
    obtain rfl := List.mem_singleton.1 hp
    simpa [← String.toList_inj, hne] using hbody
  | closed _ hbody _ _ _ ih =>
    rcases List.mem_cons.1 hp with rfl | hp
    · simpa [← String.toList_inj] using hbody
    · exact ih hp

theorem ordered (h : Parted start s parts) : parts.Pairwise fun p q => p.stop ≤ q.offset := by
  induction h with
  | blank => exact .nil
  | unfinished => exact List.pairwise_singleton ..
  | closed _ _ _ _ hrest ih =>
    refine List.pairwise_cons.2 ⟨fun p hp => ?_, ih⟩
    have hstart := (hrest.bounds hp).1
    simp only [Statement.stop, String.length_ofList, List.length_append, List.length_singleton]
    omega

/-- Only blanks stand between the statements. -/
theorem isBlank (h : Parted start s parts) {i : Nat} {c : Char} (hc : s[i]? = some c)
    (hout : ∀ p ∈ parts, start + i < p.offset ∨ p.stop ≤ start + i) : Text.isBlank c = true := by
  induction h generalizing i with
  | blank hblank => exact hblank c (List.mem_of_getElem? hc)
  | @unfinished start before body after hbefore hafter _ _ _ =>
    have hout := hout _ (List.mem_singleton_self _)
    simp only [Statement.stop, String.length_ofList] at hout
    rcases hout with hlt | hle
    · rw [List.append_assoc, List.getElem?_append_left (by omega)] at hc
      exact hbefore c (List.mem_of_getElem? hc)
    · rw [List.getElem?_append_right (by simp; omega)] at hc
      exact hafter c (List.mem_of_getElem? hc)
  | @closed start before body rest parts hbefore _ _ _ hrest ih =>
    have hfirst := hout _ List.mem_cons_self
    simp only [Statement.stop, String.length_ofList, List.length_append,
      List.length_singleton] at hfirst
    rcases hfirst with hlt | hle
    · rw [List.append_assoc, List.getElem?_append_left (by omega)] at hc
      exact hbefore c (List.mem_of_getElem? hc)
    · have htext : before ++ body ++ ';' :: rest = (before ++ body ++ [';']) ++ rest := by simp
      have hlength : (before ++ body ++ [';']).length = before.length + body.length + 1 := by
        simp only [List.length_append, List.length_singleton]
      rw [htext, List.getElem?_append_right (by omega), hlength] at hc
      refine ih hc fun p hp => ?_
      have hout := hout p (List.mem_cons_of_mem _ hp)
      omega

/-- Every statement but the last ends at a semicolon outside quotes. -/
theorem terminated (h : Parted start s parts) (hp : p ∈ parts.dropLast) :
    p.stop - 1 ∈ outside false start s := by
  induction h with
  | blank => cases hp
  | unfinished => cases hp
  | @closed start before body rest parts hbefore _ hnone hquoted hrest ih =>
    rw [outside_closed hbefore hnone hquoted]
    rcases eq_or_ne parts [] with rfl | hne
    · cases hp
    rw [List.dropLast_cons_of_ne_nil hne] at hp
    rcases List.mem_cons.1 hp with rfl | hp
    · refine List.mem_cons.2 (.inl ?_)
      simp only [Statement.stop, String.length_ofList, List.length_append, List.length_singleton]
      omega
    · exact List.mem_cons_of_mem _ (ih hp)

/-- No statement goes over a semicolon outside quotes. -/
theorem terminates (h : Parted start s parts) (hp : p ∈ parts) {i : Nat}
    (hi : i ∈ outside false start s) (hle : p.offset ≤ i) (hlt : i < p.stop) : i + 1 = p.stop := by
  induction h with
  | blank => cases hp
  | unfinished hbefore hafter _ _ hnone =>
    rw [hafter.unmarked.outside_append_right, hbefore.unmarked.outside_append_left,
      outside_eq_nil hnone] at hi
    cases hi
  | closed hbefore _ hnone hquoted hrest ih =>
    rw [outside_closed hbefore hnone hquoted] at hi
    rcases List.mem_cons.1 hp with rfl | hp
    · simp only [Statement.stop, String.length_ofList, List.length_append,
        List.length_singleton] at hlt ⊢
      rcases List.mem_cons.1 hi with rfl | hi
      · omega
      · have hlater := (mem_outside_bounds hi).1
        omega
    · have hbounds := hrest.bounds hp
      rcases List.mem_cons.1 hi with rfl | hi
      · omega
      · exact ih hp hi

/-- There is a statement for each semicolon outside quotes, and one more if something is left behind
the last of them. -/
theorem length_eq (h : Parted start s parts) : parts.length = (outside false start s).length +
    if (s.drop ((outside false start s).getLast?.elim 0 (· + 1 - start))).all Text.isBlank
    then 0 else 1 := by
  induction h with
  | blank hblank =>
    simp [hblank.unmarked.outside, List.all_eq_true.2 hblank]
  | @unfinished start before body after hbefore hafter hne hbody hnone =>
    rw [hafter.unmarked.outside_append_right, hbefore.unmarked.outside_append_left,
      outside_eq_nil hnone]
    have hnot : ¬ (before ++ body ++ after).all Text.isBlank = true := fun hall =>
      hbody.not_allBlank hne (List.all_eq_true.1 hall)
    rw [List.getLast?_nil, Option.elim_none, List.drop_zero, if_neg hnot]
    rfl
  | @closed start before body rest parts hbefore _ hnone hquoted hrest ih =>
    have hbehind : ((outside false start (before ++ body ++ ';' :: rest)).getLast?.elim 0
        (· + 1 - start)) = (before ++ body ++ [';']).length +
          (outside false (start + (before.length + body.length + 1)) rest).getLast?.elim 0
            (· + 1 - (start + (before.length + body.length + 1))) := by
      rw [outside_closed hbefore hnone hquoted, List.getLast?_cons]
      cases hlast : (outside false (start + (before.length + body.length + 1)) rest).getLast? with
      | none =>
        simp
        omega
      | some i =>
        have hi := (mem_outside_bounds (List.mem_of_getLast? hlast)).1
        simp
        omega
    have htext : before ++ body ++ ';' :: rest = (before ++ body ++ [';']) ++ rest := by simp
    rw [hbehind, outside_closed hbefore hnone hquoted, htext, List.drop_length_add_append,
      List.length_cons, List.length_cons, ih]
    omega

/-- A statement of a text is the one statement of its own. -/
theorem statements_eq (h : Parted start s parts) (hp : p ∈ parts) :
    statements p.text = [⟨0, p.text⟩] := by
  induction h with
  | blank => cases hp
  | unfinished _ _ hne hbody hnone =>
    obtain rfl := List.mem_singleton.1 hp
    rw [statements, String.toList_ofList, pieces_of_outside_eq_nil hnone,
      statementsFrom_trimmed hbody hne]
    rfl
  | closed _ hbody hnone hquoted _ ih =>
    rcases List.mem_cons.1 hp with rfl | hp
    · rw [statements, String.toList_ofList, pieces_append hnone hquoted,
        statementsFrom_trimmed hbody (by simp)]
      rfl
    · exact ih hp

end Parted

/-- The statements of a script partition it, and each is the one statement of its own text. -/
theorem partition_statements (script : String) : Partition script (statements script) ∧
    ∀ s ∈ statements script, statements s.text = [⟨0, s.text⟩] := by
  have hparted : Parted 0 script.toList (statements script) := parted_statementsFrom 0 _
  refine ⟨?_, fun s hs => hparted.statements_eq hs⟩
  exact {
    slice := by
      intro s hs
      obtain ⟨front, back, hscript, hoffset⟩ := hparted.slice hs
      rw [hscript, hoffset, Nat.zero_add, List.append_assoc, List.drop_left, ← String.length_toList,
        List.take_left]
    ordered := hparted.ordered
    blank := fun p c hc hout => hparted.isBlank hc (by simpa using hout)
    trimmed := fun s hs => hparted.trimmed hs
    terminated := by
      intro s hs
      rw [terminators_eq]
      exact hparted.terminated hs
    terminates := by
      intro s hs p hp
      rw [terminators_eq] at hp
      exact hparted.terminates hs hp
    length_eq := by
      rw [remainder, terminators_eq]
      exact hparted.length_eq }

/-- The semicolon in quotes ends nothing, and what is behind the last terminator is no statement. -/
example : terminators "USE d; x ';';\n " = [5, 12] ∧ remainder "USE d; x ';';\n " = ['\n', ' '] ∧
    statements "USE d; x ';';\n " = [⟨0, "USE d;"⟩, ⟨7, "x ';';"⟩] := by decide

/-! ### Lines that go on -/

/-- Nothing but blanks is behind the last semicolon outside quotes. -/
def Finished (s : List Char) : Prop :=
  AllBlank s ∨ ∃ body after, s = body ++ ';' :: after ∧ AllBlank after ∧ quoted false body = false

theorem not_allBlank_semicolon (body rest : List Char) : ¬ AllBlank (body ++ ';' :: rest) :=
  fun h => absurd (h ';' (by simp)) (by decide)

/-- Behind a statement, a text is finished if what follows is. -/
theorem finished_append (hquoted : quoted false body = false) :
    Finished (body ++ ';' :: rest) ↔ Finished rest := by
  constructor
  · rintro (hblank | ⟨body', after, htext, hafter, hquoted'⟩)
    · exact absurd hblank (not_allBlank_semicolon body rest)
    rcases List.append_eq_append_iff.1 htext with ⟨between, rfl, hrest⟩ | ⟨between, rfl, hrest⟩
    · rcases List.cons_eq_append_iff.1 hrest with ⟨rfl, hrest⟩ | ⟨between, rfl, rfl⟩
      · obtain rfl := (List.cons.inj hrest).2
        exact .inl hafter
      · rw [quoted_append, hquoted] at hquoted'
        exact .inr ⟨between, after, rfl, hafter, hquoted'⟩
    · rcases List.cons_eq_append_iff.1 hrest with ⟨rfl, hrest⟩ | ⟨between, rfl, rfl⟩
      · obtain rfl := (List.cons.inj hrest).2
        exact .inl hafter
      · exact absurd hafter (not_allBlank_semicolon between rest)
  · rintro (hblank | ⟨body', after, rfl, hafter, hquoted'⟩)
    · exact .inr ⟨body, rest, rfl, hblank, hquoted⟩
    · refine .inr ⟨body ++ ';' :: body', after, by simp, hafter, ?_⟩
      rw [quoted_append, hquoted]
      exact hquoted'

/-- The last character of a text and the number of its quotes tell whether it is finished. -/
theorem finished_padded (hbefore : AllBlank before) (hafter : AllBlank after) (hne : core ≠ [])
    (hcore : Text.Trimmed core) : Finished (before ++ core ++ after) ↔
      core.getLast? = some ';' ∧ core.count '\'' % 2 = 0 := by
  constructor
  · rintro (hblank | ⟨body, after', htext, hafter', hquoted⟩)
    · exact absurd hblank (hcore.not_allBlank hne)
    have hend : before ++ core = body ++ [';'] := by
      have htrim := congrArg Text.trimEnd htext
      rwa [Text.trimEnd_padded ((stops_reverse_append hne).2 hcore.back) hafter, List.append_cons,
        Text.trimEnd_padded ((stops_reverse_append (b := [';']) nofun).2 stops_semicolon) hafter']
        at htrim
    constructor
    · rw [← List.getLast?_append_of_ne_nil before hne, hend, List.getLast?_concat]
    · have hwhole : quoted false (before ++ core) = false := by
        rw [hend, quoted_append, hquoted]
        rfl
      rwa [quoted_append, hbefore.unmarked.quoted, quoted_eq_iff] at hwhole
  · rintro ⟨hlast, heven⟩
    obtain ⟨body, rfl⟩ := List.getLast?_eq_some_iff.1 hlast
    refine .inr ⟨before ++ body, after, by simp, hafter, ?_⟩
    rw [quoted_append, hbefore.unmarked.quoted, quoted_eq_iff]
    simpa using heven

theorem isUnfinished_eq_false_iff_finished (line : String) :
    isUnfinished line = false ↔ Finished line.toList := by
  rcases Text.allBlank_or_exists_trimmed line.toList with hblank |
    ⟨before, core, after, hline, hbefore, hafter, hne, hcore⟩
  · have htrim : Text.trim line.toList = [] := by
      rw [Text.trim, Text.trimStart_eq_nil hblank]
      rfl
    simp [isUnfinished, htrim, Finished, hblank]
  · have htrim : Text.trim line.toList = core := by rw [hline, hcore.trim_padded hne hbefore hafter]
    have hempty : core.isEmpty = false := by simp [hne]
    rw [hline, finished_padded hbefore hafter hne hcore, isUnfinished]
    simp [htrim, hempty]

/-- A text is finished if each of its statements is. -/
theorem Parted.finished_iff (h : Parted start s parts) : Finished s ↔
    ∀ p ∈ parts, ∃ body, p.text.toList = body ++ [';'] ∧ body.count '\'' % 2 = 0 := by
  induction h with
  | blank hblank => exact iff_of_true (.inl hblank) nofun
  | @unfinished start before body after hbefore hafter hne hbody hnone =>
    refine iff_of_false ?_ ?_
    · rintro (hblank | ⟨body', after', htext, -, hquoted⟩)
      · exact hbody.not_allBlank hne hblank
      have hmem := mem_outside.2 ⟨body', after', htext, hquoted, (Nat.zero_add _).symm⟩
      rw [hafter.unmarked.outside_append_right, hbefore.unmarked.outside_append_left,
        outside_eq_nil hnone] at hmem
      cases hmem
    · intro hends
      obtain ⟨body', htext, heven⟩ := hends _ (List.mem_singleton_self _)
      have hmem := length_mem_outside (String.toList_ofList.symm.trans htext) heven
      rw [hnone] at hmem
      cases hmem
  | @closed start before body rest parts hbefore _ _ hquoted _ ih =>
    have hwhole : quoted false (before ++ body) = false := by
      rw [quoted_append, hbefore.unmarked.quoted, hquoted]
    rw [finished_append hwhole, ih, List.forall_mem_cons]
    exact (and_iff_right ⟨body, String.toList_ofList, quoted_eq_iff.1 hquoted⟩).symm

theorem Parted.eq_nil_iff (h : Parted start s parts) : parts = [] ↔ AllBlank s := by
  cases h with
  | blank hblank => exact iff_of_true rfl hblank
  | unfinished _ _ hne hbody => exact iff_of_false nofun (hbody.not_allBlank hne)
  | closed => exact iff_of_false nofun (not_allBlank_semicolon _ _)

/-- A line goes on exactly if one of its statements does not end in a semicolon outside quotes. A
line has no statements only if it is blank. -/
theorem isUnfinished_eq_false_iff (line : String) :
    (isUnfinished line = false ↔ ∀ s ∈ statements line,
      ∃ body, s.text.toList = body ++ [';'] ∧ body.count '\'' % 2 = 0) ∧
    (statements line = [] ↔ Text.strip line = "") := by
  have hparted : Parted 0 line.toList (statements line) := parted_statementsFrom 0 _
  refine ⟨(isUnfinished_eq_false_iff_finished line).trans hparted.finished_iff, ?_⟩
  rw [hparted.eq_nil_iff, Text.allBlank_iff_strip_eq]

end Script

end Tabula
