import Tabula.Proofs.Command.FirstWord
import Tabula.Proofs.Script.Partition
import Tabula.Proofs.Shell.Console

/-!
# Statements over several lines

The console puts the next line of a statement behind the lines before it with one blank between, so
it reads the lexemes of the lines one after another (`Entered.append`). As long as none of them is a
terminator, the statement goes on (`Entered.isUnfinished`), and with a terminator at its end it is
the one statement of its text (`Entered.statements_eq`). No line is taken for a word of the
console's own: only the first one could be, and a command begins with another word
(`Word.ofLine?_of_entered`). So a statement that is cut between its tokens into lines, with any
blanks around them, is run as one statement at its last line and not before
(`Console.steps_pieces`).
-/

namespace Tabula

/-! ### Entered statements -/

namespace Entered

open Script

variable {s r : String} {ls ms : List Lexeme} {l : Lexeme}

theorem toList_ne_nil (h : Entered s ls) : s.toList ≠ [] := by
  intro hnil
  have hlayout := h.layout
  rw [hnil] at hlayout
  exact h.ne_nil hlayout.eq_nil

theorem ne_empty (h : Entered s ls) : s ≠ "" := by
  rintro rfl
  exact h.toList_ne_nil rfl

/-- The next line is put behind a blank. -/
theorem append (hs : Entered s ls) (hr : Entered r ms) : Entered (s ++ " " ++ r) (ls ++ ms) := by
  have htext : (s ++ " " ++ r).toList = s.toList ++ ' ' :: r.toList := by simp
  have hspace : isSkipped ' ' = true := by decide
  refine ⟨by simp [hs.ne_nil], ?_, ?_, ?_⟩
  · rw [htext]
    exact (hs.layout.loosen (loose_of_isSkipped hspace _)).append (.skip hspace hr.layout)
  · rw [htext]
    exact stops_append hs.toList_ne_nil hs.trimmed.front _
  · rw [String.toList_append, stops_reverse_append hr.toList_ne_nil]
    exact hr.trimmed.back

theorem isUnfinished_eq (h : Entered s ls) : isUnfinished s =
    !(decide (s.toList.getLast? = some ';') && decide (s.toList.count '\'' % 2 = 0)) := by
  simp [isUnfinished, h.trimmed.trim_eq, h.toList_ne_nil]

/-- A statement goes on as long as no terminator is entered. -/
theorem isUnfinished (h : Entered s ls) (hls : ∀ l ∈ ls, l.kind ≠ .terminator) :
    isUnfinished s = true := by
  have hnone : outside false 0 s.toList = [] := by
    rw [← List.length_eq_zero_iff, h.layout.length_outside]
    simpa [List.filter_eq_nil_iff] using hls
  rw [h.isUnfinished_eq, Bool.not_eq_true', Bool.and_eq_false_iff]
  by_contra! hend
  simp only [decide_eq_false_iff_not, not_not, ne_eq] at hend
  obtain ⟨hlast, heven⟩ := hend
  obtain ⟨body, hbody⟩ := List.getLast?_eq_some_iff.1 hlast
  have hmem := length_mem_outside hbody (by simpa [hbody] using heven)
  rw [hnone] at hmem
  cases hmem

/-- A statement that ends in a terminator ends in a semicolon. -/
theorem exists_body (h : Entered s (ls ++ [l])) (hl : l.kind = .terminator) :
    ∃ body, s.toList = body ++ [';'] := by
  obtain ⟨body, blanks, hs, hblanks⟩ := h.layout.exists_append_blanks
  obtain ⟨r, hpicked⟩ := h.layout.exists_picked l (by simp)
  rw [(hpicked.source_of_terminator hl).1] at hs
  rcases List.eq_nil_or_concat blanks with rfl | ⟨blanks, c, rfl⟩
  · exact ⟨body, by simpa using hs⟩
  · have hc : Text.isBlank c = false := h.trimmed.back c (by simp [hs])
    rw [hblanks c (by simp)] at hc
    cases hc

theorem not_isUnfinished (h : Entered s (ls ++ [l])) (hl : l.kind = .terminator) :
    Script.isUnfinished s = false := by
  obtain ⟨body, hbody⟩ := h.exists_body hl
  have hlast : s.toList.getLast? = some ';' := by simp [hbody]
  have heven := quoted_eq_iff.1 h.layout.quoted_eq
  rw [h.isUnfinished_eq, decide_eq_true hlast, decide_eq_true heven]
  rfl

/-- A statement that ends in its only terminator is the one statement of its text. -/
theorem statements_eq (h : Entered s (ls ++ [l])) (hls : ∀ l ∈ ls, l.kind ≠ .terminator)
    (hl : l.kind = .terminator) : statements s = [⟨0, s⟩] := by
  obtain ⟨body, hbody⟩ := h.exists_body hl
  have hquoted : quoted false body = false := by
    have hwhole := h.layout.quoted_eq
    rwa [hbody, quoted_append] at hwhole
  have hnone : outside false 0 body = [] := by
    have hone := h.layout.length_outside 0
    have hfilter : ls.filter (·.kind = .terminator) = [] := by
      simpa [List.filter_eq_nil_iff] using hls
    rw [hbody, outside_append, hquoted, List.filter_append, hfilter] at hone
    simpa [outside, hl] using hone
  have hpieces : pieces false s.toList = [s.toList, []] := by
    rw [hbody, pieces_append hnone hquoted]
    rfl
  rw [statements, hpieces, statementsFrom_trimmed h.trimmed h.toList_ne_nil, String.ofList_toList]
  rfl

end Entered

/-! ### The first word -/

/-- The first characters of a command in small letters; its first word may be a string. -/
def openings : List (List Char) :=
  ['\''] :: commandWords.map fun w => (w.toList.map Char.toLower).take 2

namespace Lexeme.Picked

variable {s : List Char} {l : Lexeme}

/-- The first word of a command in small letters. -/
theorem exists_opening (h : Picked s l) (hword : Text.upper l.text ∈ commandWords) :
    ∃ o ∈ openings, ∃ t, l.source.flatMap Text.lowerChar = o ++ t := by
  rcases h.word_or_string hword with ⟨hw, -, hcapitals⟩ | ⟨-, -, hsource⟩
  · have hlower :
        l.source.flatMap Text.lowerChar = (l.source.map Char.toUpper).map Char.toLower := by
      rw [List.map_map]
      exact flatMap_of_isWordTail (by decide) fun _ hc => hw.isWordTail hc
    refine ⟨_, List.mem_cons_of_mem _ (List.mem_map_of_mem (hcapitals ▸ hword)),
      ((l.source.map Char.toUpper).map Char.toLower).drop 2, ?_⟩
    rw [String.toList_ofList, List.take_append_drop 2, hlower]
  · exact ⟨['\''], by simp [openings], _, by rw [hsource]; rfl⟩

end Lexeme.Picked

namespace Console

/-- How the words of the console's own are written. -/
def Word.spellings : List String := ["exit", "quit", "help", "databases", "tables"]

/-- A word of the console's own stands at the start of its line. -/
theorem Word.exists_of_ofLine? {line : String} {word : Word} (h : Word.ofLine? line = some word)
    (hstart : Stops Text.isBlank (Text.lower line).toList) :
    ∃ w ∈ spellings, w.toList <+: (Text.lower line).toList := by
  have hback : ∀ (p : Char → Bool) (s : List Char), (s.reverse.dropWhile p).reverse <+: s := by
    intro p s
    rw [← List.reverse_suffix, List.reverse_reverse]
    exact List.dropWhile_suffix p
  obtain ⟨rest, hrest⟩ := hback (· = ';') (Text.lower line).toList
  have hstops : Stops Text.isBlank (semicolonsOff (Text.lower line).toList) := by
    intro c hc
    refine hstart c ?_
    obtain ⟨t, ht⟩ := List.head?_eq_some_iff.1 hc
    rw [semicolonsOff] at ht
    rw [← hrest, ht]
    rfl
  have hprefix : Text.trim (semicolonsOff (Text.lower line).toList) <+:
      (Text.lower line).toList := by
    rw [Text.trim, Text.trimStart_of_stops hstops]
    exact (hback Text.isBlank _).trans ⟨rest, hrest⟩
  rw [← String.toList_ofList (l := Text.trim _)] at hprefix
  refine ⟨_, ?_, hprefix⟩
  unfold Word.ofLine? at h
  dsimp only at h
  generalize String.ofList (Text.trim (semicolonsOff (Text.lower line).toList)) = w at h
  by_contra hnot
  simp only [spellings, List.mem_cons, List.not_mem_nil, or_false, not_or] at hnot
  simp [hnot] at h

/-- A statement begins with no word of the console's own. -/
theorem Word.ofLine?_of_entered {s : String} {l : Lexeme} {ls : List Lexeme}
    (h : Entered s (l :: ls)) (hword : Text.upper l.text ∈ commandWords) :
    Word.ofLine? s = none := by
  obtain ⟨hpicked, rest, hs⟩ := h.layout.exists_append_of_stops h.trimmed.front
  obtain ⟨o, ho, t, hopening⟩ := hpicked.exists_opening hword
  have hlower : (Text.lower s).toList = o ++ (t ++ rest.flatMap Text.lowerChar) := by
    rw [Text.toList_lower, hs, List.flatMap_append, hopening, List.append_assoc]
  have hblank : openings.all (fun o => o.head?.any fun c => !Text.isBlank c) = true := by decide
  have hstart : Stops Text.isBlank (Text.lower s).toList := by
    obtain ⟨c, hc, hnot⟩ := (Option.any_eq_true _ _).1 (List.all_eq_true.1 hblank o ho)
    obtain ⟨o, rfl⟩ := List.head?_eq_some_iff.1 hc
    rw [hlower]
    rintro _ ⟨⟩
    simpa using hnot
  have hapart : openings.all (fun o => spellings.all fun w =>
      !o.isPrefixOf w.toList && !w.toList.isPrefixOf o) = true := by decide
  rw [Option.eq_none_iff_forall_ne_some]
  intro word hsome
  obtain ⟨w, hw, hprefix⟩ := exists_of_ofLine? hsome hstart
  have hne := List.all_eq_true.1 (List.all_eq_true.1 hapart o ho) w hw
  simp only [Bool.and_eq_true, Bool.not_eq_true', ← Bool.not_eq_true, List.isPrefixOf_iff_prefix]
    at hne
  exact (List.prefix_or_prefix_of_prefix ⟨_, hlower.symm⟩ hprefix).elim hne.1 hne.2

/-! ### Lines of a statement -/

/-- What has been entered of a statement. -/
inductive Holds : Mode → List Lexeme → Prop
  | ready : Holds .ready []
  | continuing {statement : String} {ls : List Lexeme} : Entered statement ls →
      Holds (.continuing statement) ls

variable {mode : Mode} {ls ms : List Lexeme} {line : String}

/-- The next line of a statement is put behind what has been entered of it. -/
theorem exists_react_eq (hmode : Holds mode ls) (hline : Entered (Text.strip line) ms)
    (hword : mode = .ready → Word.ofLine? (Text.strip line) = none) :
    ∃ statement, Entered statement (ls ++ ms) ∧ react mode (.line line) = consider statement := by
  cases hmode with
  | ready =>
    refine ⟨Text.strip line, hline, ?_⟩
    simp only [react, hline.ne_empty, if_false, hword rfl]
  | @continuing statement _ hstatement =>
    refine ⟨_, hstatement.append hline, ?_⟩
    simp only [react, hline.ne_empty, if_false]

theorem run_steps_append (is js : List Input) (s : Shell.State) :
    (steps mode (is ++ js)).run s = match (steps mode is).run s with
      | .ok mode' s' => (steps mode' js).run s'
      | .error e s' => .error e s' := by
  induction is generalizing mode s with
  | nil => rfl
  | cons i is ih =>
    rw [List.cons_append, run_steps_cons, run_steps_cons]
    cases (step mode i).run s with
    | ok mode' s' => exact ih s'
    | error e s' => rfl

theorem run_steps_singleton (i : Input) (s : Shell.State) :
    (steps mode [i]).run s = (step mode i).run s := by
  rw [run_steps_cons]
  cases (step mode i).run s <;> rfl

/-- As many prompts for more of a statement. -/
def continuationPrompts (n : Nat) : List Emission := List.replicate n ⟨.output, "...> "⟩

theorem run_emit_prompt (mode : Mode) (s : Shell.State) : (Shell.emit (prompt mode)).run s =
    .ok () { s with output := s.output ++ prompt mode } := by
  refine Shell.run_emit ?_
  cases mode with
  | closed => nofun
  | _ => exact List.forall_mem_singleton.2 (Text.Encoding.encodes_of_isLow (by decide))

theorem run_emit_blank (s : Shell.State) : (emitLines [""]).run s =
    .ok () { s with output := s.output ++ [Emission.line ""] } :=
  Shell.run_emit (List.forall_mem_singleton.2 (Text.Encoding.encodes_of_isLow (by decide)))

theorem continuationPrompts_zero : continuationPrompts 0 = [] := rfl

theorem run_emit_continuationPrompts (n : Nat) (s : Shell.State) :
    (Shell.emit (continuationPrompts n)).run s =
      .ok () { s with output := s.output ++ continuationPrompts n } := by
  refine Shell.run_emit fun x hx => ?_
  rw [List.eq_of_mem_replicate hx]
  exact Text.Encoding.encodes_of_isLow (by decide)

/-- After prompts for more of a statement, the statement is run, and the next line is asked for. -/
def runAlone (prompts : Nat) (statement : String) : Shell Mode := do
  Shell.emit (continuationPrompts prompts)
  let _ ← Shell.runStatement false statement
  emitLines [""]
  Shell.emit (prompt .ready)
  return .ready

/-- As long as no terminator is entered, a line is kept and more is asked for. -/
theorem run_steps_unfinished {lines : List String} {lss : List (List Lexeme)}
    (hmode : Holds mode ls)
    (hlines : List.Forall₂ (fun line ms => Entered (Text.strip line) ms) lines lss)
    (hword : mode = .ready → ∀ line ∈ lines.head?, Word.ofLine? (Text.strip line) = none)
    (hls : ∀ l ∈ ls ++ lss.flatten, l.kind ≠ .terminator) :
    ∃ mode', Holds mode' (ls ++ lss.flatten) ∧ ∀ s, (steps mode (lines.map .line)).run s =
      .ok mode' { s with output := s.output ++ continuationPrompts lines.length } := by
  induction hlines generalizing mode ls with
  | nil => exact ⟨mode, by simpa using hmode, fun s => by simp [steps, continuationPrompts]⟩
  | @cons line ms lines lss hline _ ih =>
    obtain ⟨statement, hentered, hreact⟩ :=
      exists_react_eq hmode hline fun hready => hword hready line rfl
    rw [List.flatten_cons, ← List.append_assoc] at hls ⊢
    have hunfinished : Script.isUnfinished statement = true :=
      hentered.isUnfinished fun l hl => hls l (List.mem_append_left _ hl)
    have hstep : ∀ s, (step mode (.line line)).run s = .ok (.continuing statement)
        { s with output := s.output ++ prompt (.continuing statement) } := by
      simp [-bind_pure_comp, step, hreact, consider, hunfinished, run_emit_prompt]
    obtain ⟨mode', hholds, hrun⟩ := ih (.continuing hentered) (by simp) hls
    refine ⟨mode', hholds, fun s => ?_⟩
    rw [List.map_cons, run_steps_cons, hstep]
    refine (hrun _).trans ?_
    simp [continuationPrompts, prompt, List.replicate_succ]

/-- The line with the terminator runs the statement. -/
theorem exists_run_step {front : List Lexeme} {stop : Lexeme} (hmode : Holds mode ls)
    (hline : Entered (Text.strip line) ms)
    (hword : mode = .ready → Word.ofLine? (Text.strip line) = none)
    (hsplit : ls ++ ms = front ++ [stop]) (hfront : ∀ l ∈ front, l.kind ≠ .terminator)
    (hstop : stop.kind = .terminator) :
    ∃ statement, Entered statement (front ++ [stop]) ∧ ∀ s,
      (step mode (.line line)).run s = (runAlone 0 statement).run s := by
  obtain ⟨statement, hentered, hreact⟩ := exists_react_eq hmode hline hword
  rw [hsplit] at hentered
  refine ⟨statement, hentered, fun s => ?_⟩
  have hone := hentered.statements_eq hfront hstop
  have hfinished := hentered.not_isUnfinished hstop
  have hconsider : consider statement = finish statement := by simp [consider, hfinished]
  have hscript : (Shell.runScript false statement).run s =
      (Shell.runStatement false statement).run s := by
    rw [Shell.runScript, hone, List.map_singleton, Shell.run_runStatements_cons]
    cases (Shell.runStatement false statement).run s with
    | ok good s' => cases good <;> rfl
    | error e s' => rfl
  simp only [step, hreact, hconsider, finish, runAlone, EStateM.run_bind, hscript,
    continuationPrompts_zero, Shell.emit_nil, EStateM.run_pure, run_emit_blank]
  cases (Shell.runStatement false statement).run s <;> rfl

theorem run_runAlone (n : Nat) (statement : String) (s : Shell.State) :
    (runAlone n statement).run s =
      (runAlone 0 statement).run { s with output := s.output ++ continuationPrompts n } := by
  simp only [runAlone, EStateM.run_bind, run_emit_continuationPrompts, continuationPrompts_zero,
    Shell.emit_nil, EStateM.run_pure]

/-! ### Statements cut into lines -/

/-- A line is a piece of a statement with blanks around it. -/
def Padded (line : String) (piece : List Char) : Prop :=
  ∃ before after, line.toList = before ++ piece ++ after ∧ AllBlank before ∧ AllBlank after

theorem entered_of_padded {lines : List String} {pieces : List (List Char)}
    {lss : List (List Lexeme)} (hlines : List.Forall₂ Padded lines pieces)
    (hpieces : List.Forall₂ (fun p ls => ls ≠ [] ∧ ∃ rest, Layout p ls rest) pieces lss) :
    List.Forall₂ (fun line ms => Entered (Text.strip line) ms) lines lss := by
  induction hlines generalizing lss with
  | nil =>
    cases hpieces
    exact .nil
  | cons hline _ ih =>
    cases hpieces with
    | cons hpiece hpieces =>
      obtain ⟨before, after, hline, hbefore, hafter⟩ := hline
      obtain ⟨hne, rest, hlayout⟩ := hpiece
      refine .cons ?_ (ih hpieces)
      rw [Text.strip, hline]
      exact hlayout.entered_trim hne hbefore hafter

theorem exists_of_forall₂_append {α β : Type} {R : α → β → Prop} {as bs : List α} {cs : List β}
    (h : List.Forall₂ R (as ++ bs) cs) :
    ∃ xs ys, cs = xs ++ ys ∧ List.Forall₂ R as xs ∧ List.Forall₂ R bs ys := by
  induction as generalizing cs with
  | nil => exact ⟨[], cs, rfl, .nil, h⟩
  | cons a as ih =>
    cases h with
    | cons hac h =>
      obtain ⟨xs, ys, rfl, hxs, hys⟩ := ih h
      exact ⟨_ :: xs, ys, rfl, .cons hac hxs, hys⟩

/-- Lines that hold the lexemes of a statement, the last of which is its only terminator. -/
structure StatementLines (lines : List String) (lss : List (List Lexeme)) (front : List Lexeme)
    (last : Lexeme) (command : Command) : Prop where
  entered : List.Forall₂ (fun line ms => Entered (Text.strip line) ms) lines lss
  lexemes : lss.flatten = front ++ [last]
  front_kind : ∀ l ∈ front, l.kind ≠ .terminator
  last_kind : last.kind = .terminator
  derives : Derives (lss.flatten.map (·.token 0)) command

theorem statementTokens_of_tokenize {text : String} {tokens : List (Token Kind)}
    (h : tokenize text = .ok (tokens ++ [endToken text])) :
    statementTokens text = .ok tokens := by
  obtain ⟨ts, hts, hsame⟩ := tokenize_eq_ok_iff.1 h
  rw [hts, (List.append_inj' hsame rfl).1]

/-- A text that is cut between its tokens gives lines of a statement. -/
theorem exists_statementLines {text : String} {tokens : List (Token Kind)} {stop : Token Kind}
    {command : Command} {pieces : List (List Char)} {lines : List String}
    (htokens : tokenize text = .ok (tokens ++ [stop, endToken text]))
    (hstop : stop.kind = .terminator) (hparse : Command.parse text = .ok command)
    (htext : pieces.flatten = text.toList) (hcut : CutBetween (tokens ++ [stop]) 0 pieces)
    (hlines : List.Forall₂ Padded lines pieces) :
    ∃ lss front last, StatementLines lines lss front last command := by
  have hstatement : statementTokens text = .ok (tokens ++ [stop]) :=
    statementTokens_of_tokenize (by simpa using htokens)
  have hcovers := covers_iff.2 (scan_of_statementTokens hstatement)
  rw [← String.length_toList] at hcovers
  obtain ⟨lss, hlss, hmap⟩ :=
    hcut.exists_layouts (List.nil_append _).symm (by simp) hcovers (by simp [htext])
  have hderives : Derives (lss.flatten.map (·.token 0)) command := by
    refine placeFree_derives ?_ (derives_of_parse hstatement hstop hparse)
    rw [← hmap, List.map_map]
    rfl
  rw [List.map_append, eq_comm, List.map_eq_append_iff] at hmap
  obtain ⟨front, back, hflat, hfront, hback⟩ := hmap
  obtain ⟨last, rfl, hlast⟩ := List.map_eq_singleton_iff.1 hback
  refine ⟨lss, front, last, entered_of_padded hlines hlss, hflat, fun l hl hkind => ?_,
    (congrArg Token.kind hlast).trans hstop, hderives⟩
  obtain ⟨t, ht, htl⟩ : ∃ t ∈ tokens, t.unplaced = l.token 0 := by
    have hmem : l.token 0 ∈ front.map (·.token 0) := List.mem_map_of_mem hl
    rw [hfront] at hmem
    exact List.mem_map.1 hmem
  have hnot : ∀ t ∈ tokens, t.kind ≠ .terminator := by
    rw [eq_front_of_statementTokens hstatement hstop]
    intro t ht
    simpa using List.all_eq_true.1 List.all_takeWhile t ht
  have hsame : t.kind = l.kind := congrArg Token.kind htl
  exact hnot t ht (hsame.trans hkind)

namespace StatementLines

variable {lines before after : List String} {line : String} {lss : List (List Lexeme)}
  {front : List Lexeme} {last : Lexeme} {command : Command}

theorem ofLine?_head (h : StatementLines lines lss front last command) :
    ∀ line ∈ lines.head?, Word.ofLine? (Text.strip line) = none := by
  obtain ⟨hentered, -, -, -, hderives⟩ := h
  intro line hline
  obtain ⟨lines, rfl⟩ := List.head?_eq_some_iff.1 hline
  cases hentered with
  | cons hfirst _ =>
    obtain ⟨l, ms, rfl⟩ := List.exists_cons_of_ne_nil hfirst.ne_nil
    exact Word.ofLine?_of_entered hfirst hderives.upper_mem

/-- The terminator is in the last line, so it is not in front of another one. -/
theorem exists_split (h : StatementLines (before ++ after) lss front last command)
    (hafter : after ≠ []) : ∃ xss yss,
      List.Forall₂ (fun line ms => Entered (Text.strip line) ms) before xss ∧
      List.Forall₂ (fun line ms => Entered (Text.strip line) ms) after yss ∧
      xss.flatten ++ yss.flatten = front ++ [last] ∧ ∀ l ∈ xss.flatten, l.kind ≠ .terminator := by
  obtain ⟨xss, yss, rfl, hxss, hyss⟩ := exists_of_forall₂_append h.entered
  have hflat := h.lexemes
  rw [List.flatten_append] at hflat
  refine ⟨xss, yss, hxss, hyss, hflat, fun l hl => h.front_kind l ?_⟩
  rcases List.eq_nil_or_concat yss.flatten with hnil | ⟨mid, x, hconcat⟩
  · cases hyss with
    | nil => exact absurd rfl hafter
    | cons hline => exact absurd (List.append_eq_nil_iff.1 hnil).1 hline.ne_nil
  · rw [hconcat, List.concat_eq_append, ← List.append_assoc] at hflat
    rw [← (List.append_inj' hflat rfl).1]
    exact List.mem_append_left _ hl

/-- The lines in front of another one are kept. -/
theorem exists_run_before (h : StatementLines (before ++ after) lss front last command)
    (hafter : after ≠ []) : ∃ mode ls yss, Holds mode ls ∧
      List.Forall₂ (fun line ms => Entered (Text.strip line) ms) after yss ∧
      ls ++ yss.flatten = front ++ [last] ∧ (mode = .ready → before = []) ∧
      ∀ s, (steps .ready (before.map .line)).run s =
        .ok mode { s with output := s.output ++ continuationPrompts before.length } := by
  obtain ⟨xss, yss, hxss, hyss, hsplit, hnone⟩ := h.exists_split hafter
  have hword : ∀ line ∈ before.head?, Word.ofLine? (Text.strip line) = none := by
    intro line hline
    refine h.ofLine?_head line ?_
    rw [List.head?_append, hline]
    rfl
  obtain ⟨mode, hholds, hrun⟩ := run_steps_unfinished .ready hxss (fun _ => hword) hnone
  refine ⟨mode, xss.flatten, yss, hholds, hyss, hsplit, ?_, hrun⟩
  rintro rfl
  cases hxss with
  | nil => rfl
  | cons hline _ =>
    generalize hls : ([] : List Lexeme) ++ _ = ls at hholds
    cases hholds
    rw [List.nil_append, List.flatten_cons, List.append_eq_nil_iff] at hls
    exact absurd hls.1 hline.ne_nil

/-- The last line runs the statement. -/
theorem exists_run (h : StatementLines (before ++ [line]) lss front last command) :
    ∃ statement, Entered statement (front ++ [last]) ∧ ∀ s,
      (steps .ready ((before ++ [line]).map .line)).run s =
        (runAlone before.length statement).run s := by
  obtain ⟨mode, ls, yss, hholds, hyss, hsplit, hready, hrun⟩ := h.exists_run_before (by simp)
  obtain ⟨ms, rfl, hline⟩ : ∃ ms, yss = [ms] ∧ Entered (Text.strip line) ms := by
    cases hyss with
    | cons hline hnil =>
      cases hnil
      exact ⟨_, rfl, hline⟩
  rw [List.flatten_singleton] at hsplit
  have hword : mode = .ready → Word.ofLine? (Text.strip line) = none := by
    intro hmode
    obtain rfl := hready hmode
    exact h.ofLine?_head line rfl
  obtain ⟨statement, hentered, hstep⟩ :=
    exists_run_step hholds hline hword hsplit h.front_kind h.last_kind
  refine ⟨statement, hentered, fun s => ?_⟩
  rw [run_runAlone, ← hstep, List.map_append, run_steps_append, hrun]
  exact run_steps_singleton _ _

end StatementLines

def sampleLines : List String := ["delete from ", "\texit", " WHERE a ==", "';' ", ";"]

def samplePieces : List (List Char) :=
  ["delete from ".toList, "exit".toList, " WHERE a ==".toList, "';'".toList, ";".toList]

/-- The tokens of the pieces up to the terminator. -/
def sampleTokens : List (Token Kind) :=
  [⟨.keyword .DELETE, "DELETE", 0⟩, ⟨.keyword .FROM, "FROM", 7⟩, ⟨.identifier, "exit", 12⟩,
    ⟨.keyword .WHERE, "WHERE", 17⟩, ⟨.identifier, "a", 23⟩, ⟨.equal, "==", 25⟩, ⟨.string, ";", 27⟩]

theorem padded_sample : List.Forall₂ Padded sampleLines samplePieces := by
  have hspace : AllBlank [' '] := AllBlank.cons nofun (by decide)
  have htab : AllBlank ['\t'] := AllBlank.cons nofun (by decide)
  exact .cons ⟨[], [], rfl, nofun, nofun⟩ (.cons ⟨['\t'], [], rfl, htab, nofun⟩
    (.cons ⟨[], [], rfl, nofun, nofun⟩ (.cons ⟨[], [' '], rfl, nofun, hspace⟩
      (.cons ⟨[], [], rfl, nofun, nofun⟩ .nil))))

/-- The console takes the lines of a statement for more of it up to the last one, and then runs it
as one statement. -/
theorem steps_pieces {text : String} {tokens : List (Token Kind)} {stop : Token Kind}
    {command : Command} {pieces : List (List Char)} {lines : List String}
    (htokens : tokenize text = .ok (tokens ++ [stop, endToken text]))
    (hstop : stop.kind = .terminator) (hparse : Command.parse text = .ok command)
    (htext : pieces.flatten = text.toList) (hcut : CutBetween (tokens ++ [stop]) 0 pieces)
    (hlines : List.Forall₂ Padded lines pieces) :
    ∃ statement, Command.parse statement = .ok command ∧ ∀ s : Shell.State,
      (steps .ready (lines.map .line)).run s = (runAlone (lines.length - 1) statement).run s ∧
      ∀ before after, lines = before ++ after → before ≠ [] → after ≠ [] →
        ∃ begun, (steps .ready (before.map .line)).run s = .ok (.continuing begun)
          { s with output := s.output ++ continuationPrompts before.length } := by
  obtain ⟨lss, front, last, h⟩ :=
    exists_statementLines htokens hstop hparse htext hcut hlines
  rcases List.eq_nil_or_concat lines with rfl | ⟨init, line, hconcat⟩
  · have hnil := h.lexemes
    cases h.entered
    simp at hnil
  rw [List.concat_eq_append] at hconcat
  subst hconcat
  obtain ⟨statement, hentered, hrun⟩ := h.exists_run
  refine ⟨statement, hentered.layout.parse_eq (h.lexemes ▸ h.derives), fun s => ⟨?_, ?_⟩⟩
  · simpa using hrun s
  · intro before after hsplit hbefore hafter
    rw [hsplit] at h
    obtain ⟨mode, ls, -, hholds, -, -, hready, hrun⟩ := h.exists_run_before hafter
    cases hholds with
    | ready => exact absurd (hready rfl) hbefore
    | continuing => exact ⟨_, hrun s⟩

/-- The console takes a name for more of a statement, and not for its own word. -/
theorem steps_pieces_delete :
    Command.parse "delete from exit WHERE a ==';';" = .ok (.delete "exit" "a == ';'") ∧
      ∃ statement, Command.parse statement = .ok (.delete "exit" "a == ';'") ∧
        ∀ s : Shell.State,
          (steps .ready (sampleLines.map .line)).run s = (runAlone 4 statement).run s := by
  have htokens : tokenize "delete from exit WHERE a ==';';" =
      .ok (sampleTokens ++
        [⟨.terminator, ";", 30⟩, endToken "delete from exit WHERE a ==';';"]) := by decide +kernel
  have hparse : Command.parse "delete from exit WHERE a ==';';" =
      .ok (.delete "exit" "a == ';'") := by decide +kernel
  have hcut : CutBetween (sampleTokens ++ [⟨.terminator, ";", 30⟩]) 0 samplePieces := by
    simp only [CutBetween, samplePieces]
    decide
  obtain ⟨statement, hstatement, hrun⟩ :=
    steps_pieces htokens rfl hparse (by decide) hcut padded_sample
  exact ⟨hparse, statement, hstatement, fun s => (hrun s).1⟩

end Console

end Tabula
