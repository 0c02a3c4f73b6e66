import Tabula.Proofs.Session.Encoded
import Tabula.Proofs.Session.Ground

/-!
# Sessions that share a directory

Any number of sessions work below one directory, statement by statement in any order (`Shared.run`).
A table that one session reads may have been written, changed or dropped by another one. Still every
file below the directory holds a tidy table (`Ground.Tidy`), since that is what each effect of a
command leaves behind; and where a table comes from a table of before, its rows have kept their
numbers (`Ground.Tidy.origin`).
-/

namespace Tabula

open Operation (tableSuffix)
open FileTree (SameOutside)
open Text (Plain)

/-! ### Changes of a table -/

/-- A change of a table by a command extends it, or is a deletion of rows. -/
theorem Command.change?_spec {command : Command} {n : String}
    {f : Table → Except Failure (Table × Answer)} (h : command.change? = some (n, f))
    (hcolumns : ∀ c ∈ command.newColumns, Plain c) (hvalues : ∀ v ∈ command.values, Plain v)
    {t t' : Table} {a : Answer} (ht : t.Tidy) (hf : f t = .ok (t', a)) :
    t'.Tidy ∧ t'.name = t.name ∧
      (t.Extends t' ∨ (∃ condition, command = .delete n condition) ∧ t'.rows.Sublist t.rows) := by
  have hextends : t.Extends t' → t'.Tidy ∧ t'.name = t.name ∧
      (t.Extends t' ∨ (∃ condition, command = .delete n condition) ∧ t'.rows.Sublist t.rows) :=
    fun h => ⟨h.tidy, h.name_eq, .inl h⟩
  cases command with
  | alterTable table alteration column =>
    cases h
    exact hextends (Table.extends_of_altered ht (hcolumns column (by simp [newColumns])) hf)
  | insert table values =>
    cases h
    exact hextends (Table.extends_of_inserted ht hvalues hf)
  | update table assignments condition =>
    cases h
    exact hextends (Table.extends_of_updated ht hvalues hf)
  | delete table condition =>
    cases h
    obtain ⟨htidy, hname, -, hrows⟩ := Table.sublist_of_deleted ht hf
    exact ⟨htidy, hname, .inr ⟨⟨condition, rfl⟩, hrows⟩⟩
  | _ => cases h

namespace Ground

variable {G : Ground} {files files' : FileTree} {d d' n n' : String} {t t' : Table}
  {selected : Option String} {command : Command}

/-! ### Stored tables -/

theorem Stores.congr (h : files'.at? (G.tablePlace d n) = files.at? (G.tablePlace d n))
    (ht : G.Stores files' d n t) : G.Stores files d n t := by
  obtain ⟨c, text, hfile, hread⟩ := ht
  exact ⟨c, text, h ▸ hfile, hread⟩

theorem stores_unique (ht : G.Stores files d n t) (ht' : G.Stores files d n t') : t = t' := by
  obtain ⟨c, text, hfile, hdecode, hread⟩ := ht
  obtain ⟨c', text', hfile', hdecode', hread'⟩ := ht'
  obtain rfl : c = c' := by simpa [hfile] using hfile'
  obtain rfl : text = text' := by simpa [hdecode] using hdecode'
  exact Except.ok.inj (hread.symm.trans hread')

/-- Where a table comes from that is stored after a statement, which may be a deletion from it. -/
inductive Origin (G : Ground) (files : FileTree) (d n : String) (deletion : Prop) (t' : Table) :
    Prop
  | created : files.at? (G.tablePlace d n) = none → t'.Numbered → Origin G files d n deletion t'
  | extended {t : Table} : G.Stores files d n t → t.Extends t' → Origin G files d n deletion t'
  | thinned {t : Table} : deletion → G.Stores files d n t → t'.rows.Sublist t.rows →
      Origin G files d n deletion t'

/-! ### Tidy files -/

/-- Every file in a database is that of a tidy table, and has its name. -/
structure Tidy (G : Ground) (files : FileTree) : Prop where
  outside : SameOutside G.place G.files files
  table : ∀ d f e, files.at? (G.place ++ [d, f]) = some e →
    ∃ n text t, f = n ++ tableSuffix ∧ e = .file (.text text) ∧ files.encoding.Encodes text ∧
      Table.WellWritten n text t ∧ t.Tidy

theorem tidy_files (G : Ground) : G.Tidy G.files where
  outside := SameOutside.refl _ _
  table d f e h := by
    rw [G.empty _ (by simp)] at h
    cases h

namespace Tidy

/-- What is stored in tidy files is tidy. -/
theorem tidy_of_stores (h : G.Tidy files) (ht : G.Stores files d n t) : t.name = n ∧ t.Tidy := by
  obtain ⟨c, text, hfile, hdecode, hread⟩ := ht
  obtain ⟨m, text', u, hname, hentry, -, hu, hutidy⟩ := h.table d (n ++ tableSuffix) _ hfile
  obtain rfl : n = m := by simpa using hname
  cases hentry
  cases hdecode
  obtain rfl : t = u := Except.ok.inj (hread.symm.trans hu.read_eq)
  exact ⟨(Table.storable_of_read hread).2, hutidy⟩

/-- An entry in a database after a command was there before, or is the file of a tidy table, as the
table is written. -/
theorem entry_cases (h : G.Tidy files) (heffect : G.Effect selected files command files')
    (hcolumns : ∀ c ∈ command.newColumns, Plain c) (hvalues : ∀ v ∈ command.values, Plain v)
    {f : String} {e : Entry} (he : files'.at? (G.place ++ [d, f]) = some e) :
    files.at? (G.place ++ [d, f]) = some e ∨ ∃ t : Table, f = t.name ++ tableSuffix ∧
      e = .file (.text t.fileText) ∧ files.encoding.Encodes t.fileText ∧ t.Tidy := by
  rcases heffect.entry_cases he with hkept | ⟨n, columns, t, -, rfl, rfl, -, hnew, hencodes, rfl⟩ |
    ⟨n, change, t, t', a, -, hchange, rfl, hstores, hf, hencodes, rfl⟩
  · exact .inl hkept
  · obtain ⟨ht, rfl, -⟩ := Table.tidy_of_newTable hcolumns hnew
    exact .inr ⟨t, rfl, rfl, hencodes, ht⟩
  · obtain ⟨rfl, ht⟩ := h.tidy_of_stores hstores
    obtain ⟨ht', hname, -⟩ := Command.change?_spec hchange hcolumns hvalues ht hf
    exact .inr ⟨t', by rw [hname], rfl, hencodes, ht'⟩

/-- Each effect of a command leaves tidy files behind. -/
theorem effect (h : G.Tidy files) (heffect : G.Effect selected files command files')
    (hcolumns : ∀ c ∈ command.newColumns, Plain c) (hvalues : ∀ v ∈ command.values, Plain v) :
    G.Tidy files' := by
  refine ⟨h.outside.trans heffect.sameOutside, fun d f e he => ?_⟩
  rw [heffect.sameOutside.encoding]
  rcases h.entry_cases heffect hcolumns hvalues he with hkept | ⟨t, rfl, rfl, hencodes, ht⟩
  · exact h.table d f e hkept
  · exact ⟨_, _, t, rfl, rfl, hencodes, ht.wellWritten, ht⟩

/-- Files stay tidy when that of a table is emptied. -/
theorem emptied (h : G.Tidy files) (d n : String) :
    G.Tidy (files.put (G.tablePlace d n) (.file (.text ""))) := by
  refine ⟨h.outside.trans (SameOutside.put _ (by simp) _), fun d' f e he => ?_⟩
  by_cases hplace : G.place ++ [d', f] = G.tablePlace d n
  · rw [hplace, FileTree.at?_put_self _ (by simp [tablePlace])] at he
    cases he
    obtain ⟨-, rfl⟩ : d' = d ∧ f = n ++ tableSuffix := by simpa [tablePlace] using hplace
    exact ⟨n, _, _, rfl, rfl, by simp, Table.wellWritten_empty n, Table.tidy_empty n⟩
  · rw [FileTree.at?_put_of_ne _ hplace] at he
    exact h.table d' f e he

/-- A table that is stored after the file of a table was emptied was stored before, or is the table
that an empty file is read as. -/
theorem stores_emptied_cases (ht' : G.Stores (files.put (G.tablePlace d n) (.file (.text "")))
    d' n' t') : G.Stores files d' n' t' ∨ d' = d ∧ n' = n ∧ t' = .empty n [Table.idColumn] := by
  by_cases hplace : G.tablePlace d' n' = G.tablePlace d n
  · obtain ⟨rfl, rfl⟩ : d' = d ∧ n' = n := by simpa [tablePlace] using hplace
    obtain ⟨c, text, hfile, hdecode, hread⟩ := ht'
    rw [FileTree.at?_put_self _ (by simp [tablePlace])] at hfile
    cases hfile
    cases hdecode
    exact .inr ⟨rfl, rfl, Except.ok.inj (hread.symm.trans (Table.wellWritten_empty _).read_eq)⟩
  · exact .inl (ht'.congr (FileTree.at?_put_of_ne _ hplace _))

/-- A table that is stored after a command is a new one, or comes from the table that was stored
before it. -/
theorem origin (h : G.Tidy files) (heffect : G.Effect selected files command files')
    (hcolumns : ∀ c ∈ command.newColumns, Plain c) (hvalues : ∀ v ∈ command.values, Plain v)
    (ht' : G.Stores files' d n t') :
    G.Origin files d n (d ∈ selected ∧ ∃ condition, command = .delete n condition) t' := by
  obtain ⟨-, htidy'⟩ := (h.effect heffect hcolumns hvalues).tidy_of_stores ht'
  have ⟨c, text, hentry', hdecode, hread⟩ := ht'
  -- the table is the one that the command has written to its file
  have hwritten {u : Table} (hu : u.Tidy) (hname : u.name = n)
      (hfile : Entry.file c = .file (.text u.fileText)) : t' = u := by
    cases hfile
    cases hdecode
    rw [← hname, Table.read_fileText hu.toStorable] at hread
    exact (Except.ok.inj hread).symm
  rcases heffect.entry_cases hentry' with hkept |
    ⟨m, columns, u, -, rfl, hm, hnone, hnew, -, hfile⟩ |
    ⟨m, change, t, u, a, hselected, hchange, hm, hstores, hchanged, -, hfile⟩
  · exact .extended (ht'.congr (hentry'.trans hkept.symm)) htidy'.extends_refl
  · obtain rfl : n = m := by simpa using hm
    obtain ⟨hu, hname, hnumbered⟩ := Table.tidy_of_newTable hcolumns hnew
    obtain rfl := hwritten hu hname hfile
    exact .created hnone hnumbered
  · obtain rfl : n = m := by simpa using hm
    obtain ⟨hn, ht⟩ := h.tidy_of_stores hstores
    obtain ⟨hu, hname, hspec⟩ := Command.change?_spec hchange hcolumns hvalues ht hchanged
    obtain rfl := hwritten hu (hname.trans hn) hfile
    rcases hspec with hextends | ⟨hdelete, hrows⟩
    · exact .extended hstores hextends
    · exact .thinned ⟨hselected, hdelete⟩ hstores hrows

end Tidy

end Ground

/-! ### Sessions that take turns -/

/-- Sessions that work on the same files. -/
structure Shared where
  sessions : List Session
  files : FileTree
  deriving DecidableEq, Repr

namespace Shared

/-- A statement, and which session carries it out. -/
structure Event where
  session : Nat
  text : String

/-- A session responds to a statement. -/
def step (S : Shared) (e : Event) : Shared :=
  match S.sessions[e.session]? with
  | none => S
  | some s =>
    match (Operation.respond e.text).run ⟨s, S.files⟩ with
    | .ok _ w | .error _ w => ⟨S.sessions.set e.session w.session, w.files⟩

def run (S : Shared) (events : List Event) : Shared := events.foldl step S

/-- If the statement is one that is carried out, its values that are strings are plain. -/
def Event.Clean (e : Event) : Prop :=
  ∀ tokens command, statementTokens e.text = .ok tokens → Command.parse e.text = .ok command →
    ∀ t ∈ tokens, t.kind = .string → t.text ∈ command.values → Plain t.text

theorem Event.Clean.plain {e : Event} (h : e.Clean) {command : Command}
    (hparse : Command.parse e.text = .ok command) : ∀ v ∈ command.values, Plain v := by
  obtain ⟨_, _, _, _, _, htokens, -⟩ := exists_production_of_parse hparse
  exact plain_values htokens hparse (h _ command htokens hparse)

/-- The statement deletes from a table, whatever rows. -/
def Deletes (S : Shared) (e : Event) (d n : String) : Prop :=
  ∃ s condition a w, S.sessions[e.session]? = some s ∧ s.selected.map (·.database) = some d ∧
    Command.parse e.text = .ok (.delete n condition) ∧
    (Operation.execute e.text).run ⟨s, S.files⟩ = .ok a w

/-- The statement has a value that cannot be encoded, and leaves the file of a table empty. -/
def Empties (S : Shared) (e : Event) (d n : String) : Prop :=
  ∃ s command error, S.sessions[e.session]? = some s ∧ s.selected.map (·.database) = some d ∧
    Command.parse e.text = .ok command ∧ n ∈ command.tables ∧
    (∃ v ∈ command.values, ¬ S.files.encoding.Encodes v) ∧ error.isOfEncoding = true ∧
    (Operation.execute e.text).run ⟨s, S.files⟩ = .error error ⟨s, (S.step e).files⟩

variable {S : Shared} {G : Ground} {e : Event} {d n : String} {t t' : Table}

/-- A response leaves the world as the statement has left it. -/
theorem step_eq {s : Session} (hs : S.sessions[e.session]? = some s) :
    S.step e = match (Operation.execute e.text).run ⟨s, S.files⟩ with
      | .ok _ w | .error _ w => ⟨S.sessions.set e.session w.session, w.files⟩ := by
  unfold step
  rw [hs]
  dsimp only
  rw [Operation.run_respond]
  cases (Operation.execute e.text).run ⟨s, S.files⟩ with
  | ok a w => rfl
  | error error w =>
    dsimp only
    by_cases hreported : error.isReported = true
    · rw [if_pos hreported]
    · rw [if_neg hreported]

theorem set_session_self {s : Session} (hs : S.sessions[e.session]? = some s) :
    S.sessions.set e.session s = S.sessions := by
  obtain ⟨hindex, rfl⟩ := List.getElem?_eq_some_iff.1 hs
  exact List.set_getElem_self hindex

theorem run_append (S : Shared) (before after : List Event) :
    S.run (before ++ after) = (S.run before).run after :=
  List.foldl_append

/-- All sessions work below a directory, and nothing has changed outside of it. -/
structure Hosted (S : Shared) (G : Ground) : Prop where
  hosts : ∀ s ∈ S.sessions, G.Hosts s
  outside : SameOutside G.place G.files S.files

/-- All sessions work below a directory, where every file is that of a tidy table. -/
structure Below (S : Shared) (G : Ground) : Prop where
  hosts : ∀ s ∈ S.sessions, G.Hosts s
  tidy : G.Tidy S.files

end Shared

/-- What a session selects by a name is below its root. -/
theorem Ground.Hosts.after {G : Ground} {s : Session} (h : G.Hosts s) {command : Command}
    (hnames : ∀ d ∈ command.databases, IsName d) : G.Hosts (s.after command) := by
  have hselect : ∀ database ∈ command.databases,
      G.Hosts { s with selected := some ⟨database, s.root.join database⟩ } := by
    intro database hd
    refine ⟨h.root, fun d' hd' => ?_⟩
    cases hd'
    exact ⟨hnames _ hd, rfl⟩
  cases command with
  | use database => exact hselect database (by simp [Command.databases])
  | createDatabase database => exact hselect database (by simp [Command.databases])
  | dropDatabase database =>
    refine ⟨h.root, fun d' hd' => h.selected d' ?_⟩
    simp only [Session.after, Option.mem_def, Option.filter_eq_some_iff] at hd'
    exact hd'.1
  | _ => exact h

namespace Shared

variable {S : Shared} {G : Ground} {e : Event} {d n : String} {t t' : Table}

namespace Hosted

/-- A statement leaves all as it is, or leaves the file of a table empty, or one session carries out
a command. -/
theorem step_cases (h : S.Hosted G) (e : Event) : S.step e = S ∨
    (∃ d n, S.Empties e d n ∧
      (∃ s ∈ S.sessions, S.files.locate ((s.root.join d).join (n ++ tableSuffix)) =
        .ok (G.tablePlace d n)) ∧
      S.step e = ⟨S.sessions, S.files.put (G.tablePlace d n) (.file (.text ""))⟩) ∨
    ∃ s command a w, S.sessions[e.session]? = some s ∧ Command.parse e.text = .ok command ∧
      (Operation.execute e.text).run ⟨s, S.files⟩ = .ok a w ∧
      G.Effect (s.selected.map (·.database)) S.files command w.files ∧
      S.step e = ⟨S.sessions.set e.session (s.after command), w.files⟩ := by
  cases hsession : S.sessions[e.session]? with
  | none =>
    left
    unfold Shared.step
    rw [hsession]
  | some s =>
    have hs := h.hosts s (List.mem_of_getElem? hsession)
    have hstep := step_eq hsession
    cases hparse : Command.parse e.text with
    | error error =>
      rw [Operation.run_execute, hparse] at hstep
      dsimp only at hstep
      rw [set_session_self hsession] at hstep
      exact .inl hstep
    | ok command =>
      have hnames := fun n hn => isName_of_parse hparse (n := n) hn
      have hexecute := Operation.run_execute_of_parse hparse ⟨s, S.files⟩
      cases hrun : command.run.run ⟨s, S.files⟩ with
      | ok a w =>
        rw [hrun] at hexecute
        have heffect := Ground.effect_of_run hs h.outside hnames hrun
        refine .inr (.inr ⟨s, command, a, w, rfl, rfl, hexecute, heffect, ?_⟩)
        rw [hstep, hexecute, ← session_of_run_ok hrun]
      | error error w =>
        rw [hrun] at hexecute
        rw [hexecute] at hstep
        dsimp only at hstep
        rcases Ground.cases_of_run_error hs h.outside hnames hrun with
          rfl | ⟨hencoding, d, hd, n, hn, path, t, hsaves, hencodes, hlocate, rfl⟩
        · rw [set_session_self hsession] at hstep
          exact .inl hstep
        · rw [set_session_self hsession] at hstep
          have hvalue := hsaves.exists_value hparse hencodes
          refine .inr (.inl ⟨d, n, ⟨s, command, error, hsession, hd, hparse, hn, hvalue, hencoding,
            ?_⟩, ⟨s, List.mem_of_getElem? hsession, hlocate⟩, hstep⟩)
          rw [hexecute, hstep]

/-- What a session selects stays below the directory. -/
theorem step (h : S.Hosted G) (e : Event) : (S.step e).Hosted G := by
  rcases h.step_cases e with hsame | ⟨d, n, -, -, hstep⟩ |
    ⟨s, command, a, w, hs, hparse, -, heffect, hstep⟩
  · rwa [hsame]
  · rw [hstep]
    exact ⟨h.hosts, h.outside.trans (SameOutside.put _ (by simp) _)⟩
  · rw [hstep]
    refine ⟨fun s' hs' => ?_, h.outside.trans heffect.sameOutside⟩
    rcases List.mem_or_eq_of_mem_set hs' with hs' | rfl
    · exact h.hosts s' hs'
    · have hnames := fun n hn => isName_of_parse hparse (n := n) hn
      exact (h.hosts s (List.mem_of_getElem? hs)).after fun d hd => hnames d (by simp [hd])

end Hosted

theorem hosted_of_start {sessions : List Session}
    (hstart : ∀ s ∈ sessions, s.selected = none ∧ G.files.locate s.root = .ok G.place) :
    (⟨sessions, G.files⟩ : Shared).Hosted G :=
  ⟨fun s hs => ⟨(hstart s hs).2, by simp [(hstart s hs).1]⟩, SameOutside.refl _ _⟩

namespace Below

theorem hosted (h : S.Below G) : S.Hosted G := ⟨h.hosts, h.tidy.outside⟩

/-- A statement with plain values keeps all tables tidy. -/
theorem step (h : S.Below G) (hclean : e.Clean) : (S.step e).Below G := by
  refine ⟨(h.hosted.step e).hosts, ?_⟩
  rcases h.hosted.step_cases e with hsame | ⟨d, n, -, -, hstep⟩ |
    ⟨s, command, a, w, -, hparse, -, heffect, hstep⟩
  · rw [hsame]
    exact h.tidy
  · rw [hstep]
    exact h.tidy.emptied d n
  · have hnames := fun n hn => isName_of_parse hparse (n := n) hn
    have hcolumns : ∀ c ∈ command.newColumns, Plain c := fun c hc => (hnames c (by simp [hc])).plain
    rw [hstep]
    exact h.tidy.effect heffect hcolumns (hclean.plain hparse)

theorem run (h : S.Below G) {events : List Event} (hclean : ∀ e ∈ events, e.Clean) :
    (S.run events).Below G := by
  induction events generalizing S with
  | nil => exact h
  | cons e events ih =>
    exact ih (h.step (hclean e (by simp))) fun e' he' => hclean e' (List.mem_cons_of_mem e he')

/-- A table that is stored after a statement has been emptied by it, or comes from what was there
before. -/
theorem origin (h : S.Below G) (hclean : e.Clean) (ht' : G.Stores (S.step e).files d n t') :
    S.Empties e d n ∧ t' = .empty n [Table.idColumn] ∨
      G.Origin S.files d n (S.Deletes e d n) t' := by
  rcases h.hosted.step_cases e with hsame | ⟨d', n', hempties, -, hstep⟩ |
    ⟨s, command, a, w, hs, hparse, hexecute, heffect, hstep⟩
  · rw [hsame] at ht'
    exact .inr (.extended ht' (h.tidy.tidy_of_stores ht').2.extends_refl)
  · rw [hstep] at ht'
    rcases Ground.Tidy.stores_emptied_cases ht' with ht | ⟨rfl, rfl, rfl⟩
    · exact .inr (.extended ht (h.tidy.tidy_of_stores ht).2.extends_refl)
    · exact .inl ⟨hempties, rfl⟩
  · have hcolumns : ∀ c ∈ command.newColumns, Plain c :=
      fun c hc => (isName_of_parse hparse (by simp [hc])).plain
    rw [hstep] at ht'
    refine .inr ?_
    cases h.tidy.origin heffect hcolumns (hclean.plain hparse) ht' with
    | created hnone hnumbered => exact .created hnone hnumbered
    | extended ht hextends => exact .extended ht hextends
    | thinned hdeletion ht hrows =>
      obtain ⟨hselected, condition, rfl⟩ := hdeletion
      exact .thinned ⟨s, condition, a, w, hs, hselected, hparse, hexecute⟩ ht hrows

/-- What is stored for a table is numbered as long as nothing is deleted from it, if it was numbered
or was not there. -/
theorem numbered (h : S.Below G) {events : List Event} (hclean : ∀ e ∈ events, e.Clean)
    (hstart : ∀ t, G.Stores S.files d n t → t.Numbered)
    (hkept : ∀ done e, done ++ [e] <+: events → ¬ (S.run done).Deletes e d n)
    (ht : G.Stores (S.run events).files d n t) : t.Numbered := by
  induction events generalizing S with
  | nil => exact hstart t ht
  | cons e events ih =>
    have he : e.Clean := hclean e (by simp)
    refine ih (h.step he) (fun e' he' => hclean e' (List.mem_cons_of_mem e he')) ?_ ?_ ht
    · intro u hu
      rcases h.origin he hu with ⟨-, rfl⟩ | horigin
      · rfl
      cases horigin with
      | created _ hnumbered => exact hnumbered
      | extended hstores hextends => exact hextends.numbered (hstart _ hstores)
      | thinned hdeletes => exact absurd hdeletes (hkept [] e (by simp))
    · intro done e' hdone
      exact hkept (e :: done) e' (by simpa using hdone)

end Below

/-! ### Sessions on an empty directory -/

/-- Sessions start on an empty directory, and respond to any statements with plain values, in any
order. Then every file in a database is well written and is read as a table of its name; a next
statement keeps the numbers of the rows that were there, unless it deletes rows, or leaves the file
empty of a table that cannot be encoded; and the rows of a table are numbered from one on, if none
was deleted since the table was not there. -/
theorem tables_of_run {sessions : List Session} {events : List Event}
    (hstart : ∀ s ∈ sessions, s.selected = none ∧ G.files.locate s.root = .ok G.place)
    (hclean : ∀ e ∈ events, e.Clean) :
    let start : Shared := ⟨sessions, G.files⟩
    let S := start.run events
    (∀ d f entry, S.files.at? (G.place ++ [d, f]) = some entry →
      ∃ n text t, f = n ++ tableSuffix ∧ entry = .file (.text text) ∧ Table.WellWritten n text t ∧
        ∀ path, S.files.locate path = .ok (G.place ++ [d, f]) → S.files.table n path = .ok t) ∧
    (∀ e d n t t', e.Clean → G.Stores S.files d n t → G.Stores (S.step e).files d n t' →
      t.ids <+: t'.ids ∨ S.Deletes e d n ∧ t'.rows.Sublist t.rows ∨
        S.Empties e d n ∧ t' = .empty n [Table.idColumn]) ∧
    (∀ before after d n t, events = before ++ after →
      (start.run before).files.at? (G.tablePlace d n) = none →
      (∀ done e, done ++ [e] <+: after → ¬ (start.run (before ++ done)).Deletes e d n) →
      G.Stores S.files d n t → t.Numbered) := by
  intro start S
  have hbelow : start.Below G :=
    ⟨fun s hs => ⟨(hstart s hs).2, by simp [(hstart s hs).1]⟩, G.tidy_files⟩
  have hS : S.Below G := hbelow.run hclean
  refine ⟨fun d f entry hentry => ?_, fun e d n t t' he ht ht' => ?_, ?_⟩
  · obtain ⟨n, text, t, rfl, rfl, hencodes, ht, -⟩ := hS.tidy.table d f entry hentry
    refine ⟨n, text, t, rfl, rfl, ht, fun path hpath => ?_⟩
    have hread := FileTree.readFile_eq_text hpath hentry hencodes
    rw [FileTree.table_of_readFile (FileTree.isFile_of_file hpath hentry) hread, ht.read_eq]
    rfl
  · rcases hS.origin he ht' with hempties | horigin
    · exact .inr (.inr hempties)
    cases horigin with
    | created hnone _ =>
      obtain ⟨c, _, hfile, -⟩ := ht
      rw [hnone] at hfile
      cases hfile
    | extended hu hextends =>
      rw [Ground.stores_unique ht hu]
      exact .inl hextends.ids
    | thinned hdeletes hu hrows =>
      rw [Ground.stores_unique ht hu]
      exact .inr (.inl ⟨hdeletes, hrows⟩)
  · rintro before after d n t rfl hnone hkept ht
    have hbefore : (start.run before).Below G :=
      hbelow.run fun e he => hclean e (List.mem_append_left _ he)
    change G.Stores (start.run (before ++ after)).files d n t at ht
    rw [run_append] at ht
    refine hbefore.numbered (fun e he => hclean e (List.mem_append_right _ he)) ?_ ?_ ht
    · rintro u ⟨c, _, hfile, -⟩
      rw [hnone] at hfile
      cases hfile
    · intro done e hdone
      rw [← run_append]
      exact hkept done e hdone

/-- Two sessions that fill a table together. -/
def sampleEvents : List Event :=
  [⟨0, "CREATE DATABASE d;"⟩, ⟨0, "CREATE TABLE t (a);"⟩, ⟨1, "USE d;"⟩,
    ⟨1, "INSERT INTO t VALUES ('x');"⟩, ⟨0, "INSERT INTO t VALUES ('y');"⟩]

/-- A directory with nothing in it. -/
def sampleGround : Ground where
  files := ⟨[], [(["r"], .directory)], .utf8⟩
  place := ["r"]
  directory := rfl
  empty q hq := by
    cases q with
    | nil => exact absurd rfl hq
    | cons n q => rfl

def sampleStart : Shared := ⟨[⟨⟨0, ["r"]⟩, none⟩, ⟨⟨0, ["r"]⟩, none⟩], sampleGround.files⟩

theorem start_sample : ∀ s ∈ sampleStart.sessions,
    s.selected = none ∧ sampleGround.files.locate s.root = .ok sampleGround.place := by
  intro s hs
  simp only [sampleStart, List.mem_cons, List.not_mem_nil, or_false, or_self] at hs
  subst hs
  exact ⟨rfl, rfl⟩

theorem parse_sample : ∀ e ∈ sampleEvents, ∃ command, Command.parse e.text = .ok command ∧
    (∀ v ∈ command.values, Plain v) ∧ ∀ n condition, command ≠ .delete n condition := by
  intro e he
  simp only [sampleEvents, List.mem_cons, List.not_mem_nil, or_false] at he
  rcases he with rfl | rfl | rfl | rfl | rfl
  · exact ⟨.createDatabase "d", by with_unfolding_all rfl, by decide, by simp⟩
  · exact ⟨.createTable "t" ["a"], by with_unfolding_all rfl, by decide, by simp⟩
  · exact ⟨.use "d", by with_unfolding_all rfl, by decide, by simp⟩
  · exact ⟨.insert "t" ["x"], by with_unfolding_all rfl, by decide, by simp⟩
  · exact ⟨.insert "t" ["y"], by with_unfolding_all rfl, by decide, by simp⟩

theorem clean_sample : ∀ e ∈ sampleEvents, e.Clean := by
  intro e he tokens command _ hparse t _ _ ht
  obtain ⟨command', hparse', hplain, -⟩ := parse_sample e he
  obtain rfl : command' = command := Except.ok.inj (hparse'.symm.trans hparse)
  exact hplain _ ht

/-- The table that both sessions have filled is well written, and its rows are numbered. -/
theorem tables_of_run_sample :
    (∃ t, Table.WellWritten "t" "id\ta\n1\tx\n2\ty\n" t) ∧
    ∃ t, sampleGround.Stores (sampleStart.run sampleEvents).files "d" "t" t ∧
      t.rows.length = 2 ∧ t.Numbered := by
  have hrun : (sampleStart.run sampleEvents).files = ⟨[], [(["r"], .directory),
      (["r", "d"], .directory),
      (["r", "d", "t.tab"], .file (.text "id\ta\n1\tx\n2\ty\n"))], .utf8⟩ := by decide +kernel
  have hread : Table.read "t" "id\ta\n1\tx\n2\ty\n" = .ok ⟨"t", ["id", "a"],
      [⟨[("id", "1"), ("a", "x")]⟩, ⟨[("id", "2"), ("a", "y")]⟩]⟩ := rfl
  have hentry : (sampleStart.run sampleEvents).files.at? ["r", "d", "t.tab"] =
      some (.file (.text "id\ta\n1\tx\n2\ty\n")) := by
    rw [hrun]
    rfl
  have hstores := (⟨_, _, hentry, rfl, hread⟩ : sampleGround.Stores _ "d" "t" _)
  obtain ⟨htables, -, hnumbered⟩ := tables_of_run start_sample clean_sample
  refine ⟨?_, _, hstores, rfl, ?_⟩
  · obtain ⟨n, text, t, hname, hfile, ht, -⟩ := htables "d" "t.tab" _ hentry
    obtain rfl : "t" = n := by
      have hsuffix : "t.tab" = "t" ++ tableSuffix := rfl
      rw [hsuffix] at hname
      simpa using hname
    cases hfile
    exact ⟨t, ht⟩
  · refine hnumbered [] sampleEvents "d" "t" _ rfl rfl ?_ hstores
    rintro done e hdone ⟨s, condition, a, w, -, -, hparse, -⟩
    obtain ⟨command, hparse', -, hdelete⟩ := parse_sample e (hdone.subset (by simp))
    exact hdelete _ _ (Except.ok.inj (hparse'.symm.trans hparse))

end Shared

end Tabula
