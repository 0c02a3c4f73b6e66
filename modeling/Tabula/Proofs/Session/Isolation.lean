import Tabula.Proofs.FileTree.Agreement
import Tabula.Proofs.Session.Shared

/-!
# Sessions on different databases

Sessions that share a root directory and name different databases do not notice each other: the
responses to one of them, what it has selected and its databases are what they would be if the
others had never said anything (`Shared.outcomes_alone`). All that a session looks at is in its own
databases or on the way to the root (`FileTree.SameOn.respond`), and all that it changes is in its
own databases (`Hidden.leaves_run`).

The way to the root must not lead through a database of the others: behind `u/..` there is nothing
any more when `u` has been dropped.
-/

namespace Tabula

open FileTree (SameOn SameOutcome Sees placeOf)
open Operation (tableSuffix)

variable {keep : List String → Prop} {mine : String → Prop} {root : Path}
  {workingDirectory : List String} {s : Session} {command : Command}

/-! ### Sessions and their databases -/

/-- The session works below a root directory, and has selected one of its own databases, or
none. -/
structure Session.Within (root : Path) (mine : String → Prop) (s : Session) : Prop where
  below : s.root = root
  selected : ∀ d ∈ s.selected,
    mine d.database ∧ IsName d.database ∧ d.path = root.join d.database

theorem Session.Within.after (hs : s.Within root mine)
    (hmine : ∀ d ∈ command.databases, mine d ∧ IsName d) : (s.after command).Within root mine := by
  have hselect : ∀ d ∈ command.databases,
      Session.Within root mine { s with selected := some ⟨d, s.root.join d⟩ } := by
    intro d hd
    refine ⟨hs.below, fun d' hd' => ?_⟩
    cases hd'
    exact ⟨(hmine d hd).1, (hmine d hd).2, by rw [hs.below]⟩
  cases command with
  | use database => exact hselect database (by simp [Command.databases])
  | createDatabase database => exact hselect database (by simp [Command.databases])
  | dropDatabase database =>
    refine ⟨hs.below, fun d hd => hs.selected d ?_⟩
    simp only [Session.after, Option.mem_def, Option.filter_eq_some_iff] at hd
    exact hd.1
  | _ => exact hs

/-- What a session with these databases looks at is kept. -/
structure Views (keep : List String → Prop) (workingDirectory : List String) (root : Path)
    (mine : String → Prop) : Prop where
  sees : Sees keep workingDirectory root
  atRoot : keep (placeOf workingDirectory root)
  database : ∀ d, mine d → keep (placeOf workingDirectory root ++ [d])
  table : ∀ d f, mine d → keep (placeOf workingDirectory root ++ [d, f])

namespace Views

variable (h : Views keep workingDirectory root mine) {d n : String}

include h

theorem sees_database (hd : IsName d) : Sees keep workingDirectory (root.join d) :=
  h.sees.join hd.isPart h.atRoot

theorem keep_database (hd : IsName d) (hmine : mine d) :
    keep (placeOf workingDirectory (root.join d)) := by
  rw [FileTree.placeOf_join hd.isPart]
  exact h.database d hmine

theorem tablePath (hs : s.Within root mine) (hn : IsName n) {path : Path}
    (hpath : s.tablePath n = .ok path) :
    Sees keep workingDirectory path ∧ keep (placeOf workingDirectory path) := by
  obtain ⟨d, hselected, rfl⟩ := Session.exists_selected_of_tablePath hpath
  obtain ⟨hmine, hd, hpath⟩ := hs.selected d hselected
  rw [hpath]
  refine ⟨(h.sees_database hd).join hn.isPart_file (h.keep_database hd hmine), ?_⟩
  rw [FileTree.placeOf_join hn.isPart_file, FileTree.placeOf_join hd.isPart, List.append_assoc]
  exact h.table _ _ hmine

end Views

/-! ### What a session does where trees agree -/

/-- The results are the same, with the same session, and files that agree. -/
inductive SameResult (keep : List String → Prop) {α : Type} :
    EStateM.Result Failure World α → EStateM.Result Failure World α → Prop
  | ok {a : α} {s : Session} {t t' : FileTree} :
      SameOn keep t t' → SameResult keep (.ok a ⟨s, t⟩) (.ok a ⟨s, t'⟩)
  | error {e : Failure} {s : Session} {t t' : FileTree} :
      SameOn keep t t' → SameResult keep (.error e ⟨s, t⟩) (.error e ⟨s, t'⟩)

namespace FileTree.SameOn

open Operation

variable {t t' : FileTree} {path : Path} {d n : String} {α : Type}

theorem settle (h : SameOn keep t t') (x : Except Failure α) (s : Session) :
    SameResult keep ((settle x).run ⟨s, t⟩) ((Operation.settle x).run ⟨s, t'⟩) := by
  cases x with
  | ok a => exact .ok h
  | error e => exact .error h

section

variable (h : SameOn keep t t') (hpath : Sees keep t.workingDirectory path)
  (hplace : keep (placeOf t.workingDirectory path))

include h hpath hplace

theorem table_eq (n : String) : t'.table n path = t.table n path := by
  rw [FileTree.table, FileTree.table, h.isFile_eq hpath hplace, h.readFile_eq hpath hplace]

theorem store (u : Table) (a : α) (s : Session) :
    SameResult keep ((do store u path; return a : Operation α).run ⟨s, t⟩)
      ((do store u path; return a : Operation α).run ⟨s, t'⟩) := by
  rw [run_store, run_store]
  dsimp only
  obtain ⟨houtcome, hfiles⟩ := h.writeFile hpath hplace u.fileText
  generalize t.writeFile path u.fileText = result at houtcome hfiles
  generalize t'.writeFile path u.fileText = result' at houtcome hfiles
  obtain ⟨outcome, files⟩ := result
  obtain ⟨outcome', files'⟩ := result'
  obtain rfl : outcome' = outcome := houtcome
  cases outcome' with
  | error e => exact .error hfiles
  | ok _ => exact .ok hfiles

end

section

variable (h : SameOn keep t t') (hviews : Views keep t.workingDirectory root mine)
  (hs : s.Within root mine)

include h hviews hs

theorem worldTable_eq (hn : IsName n) : World.table ⟨s, t'⟩ n = World.table ⟨s, t⟩ n := by
  unfold World.table
  cases hpath : s.tablePath n with
  | error e => rfl
  | ok path =>
    obtain ⟨hsees, hplace⟩ := hviews.tablePath hs hn hpath
    exact h.table_eq hsees hplace n

theorem changeTable (hn : IsName n) (f : Table → Except Failure (Table × Answer)) :
    SameResult keep ((changeTable n f).run ⟨s, t⟩) ((changeTable n f).run ⟨s, t'⟩) := by
  rw [run_changeTable, run_changeTable]
  dsimp only
  cases hpath : s.tablePath n with
  | error e => exact .error h
  | ok path =>
    obtain ⟨hsees, hplace⟩ := hviews.tablePath hs hn hpath
    dsimp only
    rw [h.table_eq hsees hplace]
    cases t.table n path >>= f with
    | error e => exact .error h
    | ok result => exact h.store hsees hplace _ _ s

theorem useDatabase (hd : IsName d) (hmine : mine d) :
    SameResult keep ((useDatabase d).run ⟨s, t⟩) ((useDatabase d).run ⟨s, t'⟩) := by
  rw [run_useDatabase, run_useDatabase]
  dsimp only
  rw [hs.below, h.isDirectory_eq (hviews.sees_database hd) (hviews.keep_database hd hmine)]
  split
  · exact .error h
  · exact .error h
  · exact .ok h

theorem createDatabase (hd : IsName d) (hmine : mine d) :
    SameResult keep ((createDatabase d).run ⟨s, t⟩) ((createDatabase d).run ⟨s, t'⟩) := by
  have hsees := hviews.sees_database hd
  have hplace := hviews.keep_database hd hmine
  rw [run_createDatabase, run_createDatabase]
  dsimp only
  rw [hs.below, h.hasEntry_eq hsees hplace]
  split
  · exact .error h
  · exact .error h
  · have houtcome := h.makeDirectory hsees hplace
    generalize t.makeDirectory (root.join d) = x, t'.makeDirectory (root.join d) = x' at houtcome
    cases houtcome with
    | ok hfiles => exact .ok hfiles
    | error => exact .error h

theorem dropDatabase (hd : IsName d) (hmine : mine d) :
    SameResult keep ((dropDatabase d).run ⟨s, t⟩) ((dropDatabase d).run ⟨s, t'⟩) := by
  have hsees := hviews.sees_database hd
  have hplace := hviews.keep_database hd hmine
  rw [run_dropDatabase, run_dropDatabase]
  dsimp only
  rw [hs.below, h.isDirectory_eq hsees hplace]
  split
  · exact .error h
  · exact .error h
  · obtain ⟨houtcome, hfiles⟩ := h.removeTree hsees hplace
    generalize t.removeTree (root.join d) = result at houtcome hfiles
    generalize t'.removeTree (root.join d) = result' at houtcome hfiles
    obtain ⟨outcome, files⟩ := result
    obtain ⟨outcome', files'⟩ := result'
    obtain rfl : outcome' = outcome := houtcome
    cases outcome' with
    | error e => exact .error hfiles
    | ok u => exact .ok hfiles

theorem createTable (hn : IsName n) (declared : List String) :
    SameResult keep ((createTable n declared).run ⟨s, t⟩)
      ((createTable n declared).run ⟨s, t'⟩) := by
  rw [run_createTable, run_createTable]
  dsimp only
  cases hpath : s.tablePath n with
  | error e => exact .error h
  | ok path =>
    obtain ⟨hsees, hplace⟩ := hviews.tablePath hs hn hpath
    dsimp only
    rw [h.hasEntry_eq hsees hplace]
    split
    · exact .error h
    · exact .error h
    · split
      · exact .error h
      · exact h.store hsees hplace _ _ s

theorem dropTable (hn : IsName n) :
    SameResult keep ((dropTable n).run ⟨s, t⟩) ((dropTable n).run ⟨s, t'⟩) := by
  rw [run_dropTable, run_dropTable]
  dsimp only
  cases hpath : s.tablePath n with
  | error e => exact .error h
  | ok path =>
    obtain ⟨hsees, hplace⟩ := hviews.tablePath hs hn hpath
    dsimp only
    rw [h.isFile_eq hsees hplace]
    split
    · exact .error h
    · exact .error h
    · have houtcome := h.deleteFile hsees hplace
      generalize t.deleteFile path = x, t'.deleteFile path = x' at houtcome
      cases houtcome with
      | ok hfiles => exact .ok hfiles
      | error => exact .error h

/-- A command on databases that are kept does the same in trees that agree. -/
theorem run (hmine : ∀ d ∈ command.databases, IsName d ∧ mine d)
    (hnames : ∀ n ∈ command.tables, IsName n) :
    SameResult keep (command.run.run ⟨s, t⟩) (command.run.run ⟨s, t'⟩) := by
  cases command using Command.casesOnEffect with
  | use d =>
    obtain ⟨hd, hmine⟩ := hmine d (by simp [Command.databases])
    exact h.useDatabase hviews hs hd hmine
  | createDatabase d =>
    obtain ⟨hd, hmine⟩ := hmine d (by simp [Command.databases])
    exact h.createDatabase hviews hs hd hmine
  | dropDatabase d =>
    obtain ⟨hd, hmine⟩ := hmine d (by simp [Command.databases])
    exact h.dropDatabase hviews hs hd hmine
  | createTable n columns =>
    exact h.createTable hviews hs (hnames n (by simp [Command.tables])) columns
  | dropTable n => exact h.dropTable hviews hs (hnames n (by simp [Command.tables]))
  | change command n f hchange =>
    rw [Command.run_of_change? hchange]
    exact h.changeTable hviews hs (hnames n (Command.mem_tables_of_change? hchange)) f
  | query command answer hquery =>
    have htables := Command.query?_congr hquery
      fun n hn => h.worldTable_eq hviews hs (hnames n hn)
    rw [run_of_query? hquery, run_of_query? hquery, htables]
    exact h.settle _ s

/-- A statement about databases that are kept has the same response in trees that agree. -/
theorem respond {text : String}
    (hmine : ∀ command, Command.parse text = .ok command → ∀ d ∈ command.databases, mine d) :
    SameResult keep ((respond text).run ⟨s, t⟩) ((respond text).run ⟨s, t'⟩) := by
  rw [run_respond, run_respond, run_execute, run_execute]
  cases hparse : Command.parse text with
  | error e => exact .ok h
  | ok command =>
    have hnames := fun n hn => isName_of_parse hparse (n := n) (List.mem_append_left _ hn)
    have hresult := h.run hviews hs
      (fun d hd => ⟨hnames d (List.mem_append_left _ hd), hmine command hparse d hd⟩)
      fun n hn => hnames n (List.mem_append_right _ hn)
    dsimp only
    generalize command.run.run ⟨s, t⟩ = r, command.run.run ⟨s, t'⟩ = r' at hresult
    cases hresult with
    | ok hfiles => exact .ok hfiles
    | @error e _ _ _ hfiles =>
      dsimp only
      split
      · exact .ok hfiles
      · exact .error hfiles

end

end FileTree.SameOn

/-! ### What a session leaves alone -/

/-- Nothing in these databases is kept. -/
def Hidden (keep : List String → Prop) (workingDirectory : List String) (root : Path)
    (theirs : String → Prop) : Prop :=
  ∀ d, theirs d → ∀ q, placeOf workingDirectory root ++ [d] <+: q → ¬ keep q

/-- The files agree with `t` in the end. -/
def Leaves (keep : List String → Prop) (t : FileTree) {α : Type} :
    EStateM.Result Failure World α → Prop :=
  Ends fun w => SameOn keep t w.files

namespace Hidden

open Operation

variable {theirs : String → Prop} {w : World} {d n : String} {path : Path}

section

variable (h : Hidden keep workingDirectory root theirs)

include h

theorem database (hd : IsName d) (htheirs : theirs d) :
    ∀ q, placeOf workingDirectory (root.join d) <+: q → ¬ keep q := by
  rw [FileTree.placeOf_join hd.isPart]
  exact h d htheirs

theorem tablePath (hs : s.Within root theirs) (hn : IsName n) (hpath : s.tablePath n = .ok path) :
    ∀ q, placeOf workingDirectory path <+: q → ¬ keep q := by
  obtain ⟨d, hselected, rfl⟩ := Session.exists_selected_of_tablePath hpath
  obtain ⟨htheirs, hd, hpath⟩ := hs.selected d hselected
  intro q hq
  rw [hpath, FileTree.placeOf_join hn.isPart_file] at hq
  exact h.database hd htheirs q ((List.prefix_append _ _).trans hq)

end

variable (h : Hidden keep w.files.workingDirectory root theirs)
  (hs : w.session.Within root theirs)

include h hs

/-- A command on databases of which nothing is kept leaves what is kept, also when it fails. -/
theorem leaves_run (htheirs : ∀ d ∈ command.databases, IsName d ∧ theirs d)
    (hnames : ∀ n ∈ command.tables, IsName n) : Leaves keep w.files (command.run.run w) := by
  have hdatabase : ∀ d ∈ command.databases, ∀ q,
      placeOf w.files.workingDirectory (w.session.root.join d) <+: q → ¬ keep q := by
    intro d hd
    rw [hs.below]
    exact h.database (htheirs d hd).1 (htheirs d hd).2
  have hremoved : ∀ {d x files}, command = .dropDatabase d →
      w.files.removeTree (w.session.root.join d) = (x, files) → SameOn keep w.files files := by
    rintro d x files rfl hremove
    have hfiles := SameOn.of_removeTree (t := w.files) (hdatabase d (by simp [Command.databases]))
    rwa [hremove] at hfiles
  cases hrun : command.run.run w with
  | error e w' =>
    rcases cases_of_run_error hrun with rfl | ⟨d, _, files, hdrop, hremove, rfl⟩ |
      ⟨path, t, q, _, hsaves, hq, -, -, -, rfl⟩
    · exact .refl keep _
    · exact hremoved hdrop hremove
    · obtain ⟨n, hn, hpath⟩ := hsaves.exists_tablePath
      exact SameOn.of_put (h.tablePath hs (hnames n hn) hpath) hq
  | ok a w' =>
    obtain ⟨files, rfl, hsucceeds⟩ := Command.run_eq_ok_iff.1 hrun
    change SameOn keep w.files files
    cases hsucceeds with
    | use => exact .refl keep _
    | createDatabase _ hmake =>
      obtain ⟨q, hq, rfl⟩ := FileTree.exists_place_of_makeDirectory hmake
      exact SameOn.of_put (hdatabase _ (by simp [Command.databases])) hq
    | dropDatabase _ hremove => exact hremoved rfl hremove
    | @createTable n _ _ _ _ hpath _ _ hwrite =>
      obtain ⟨q, hq, -, -, rfl⟩ := FileTree.exists_place_of_writeFile hwrite
      exact SameOn.of_put (h.tablePath hs (hnames n (by simp [Command.tables])) hpath) hq
    | @dropTable n _ _ hpath _ hdelete =>
      obtain ⟨q, hq, rfl⟩ := FileTree.exists_place_of_deleteFile hdelete
      exact SameOn.of_erase (h.tablePath hs (hnames n (by simp [Command.tables])) hpath) hq
    | change hchange hpath _ _ hwrite =>
      have hn := hnames _ (Command.mem_tables_of_change? hchange)
      obtain ⟨q, hq, -, -, rfl⟩ := FileTree.exists_place_of_writeFile hwrite
      exact SameOn.of_put (h.tablePath hs hn hpath) hq
    | query => exact .refl keep _

theorem leaves_respond {text : String}
    (htheirs : ∀ command, Command.parse text = .ok command → ∀ d ∈ command.databases, theirs d) :
    Leaves keep w.files ((respond text).run w) := by
  refine ends_respond (.refl keep w.files) fun command hparse => h.leaves_run hs ?_ ?_
  · intro d hd
    exact ⟨isName_of_parse hparse (by simp [hd]), htheirs command hparse d hd⟩
  · intro n hn
    exact isName_of_parse hparse (by simp [hn])

end Hidden

/-! ### Sessions that take turns -/

theorem Session.Within.ends_respond {w : World} (hs : w.session.Within root mine) {text : String}
    (hmine : ∀ command, Command.parse text = .ok command → ∀ d ∈ command.databases, mine d) :
    Ends (fun w' => w'.session.Within root mine) ((Operation.respond text).run w) := by
  refine Tabula.ends_respond hs fun command hparse => ?_
  cases hrun : command.run.run w with
  | ok a w' =>
    have hafter := hs.after fun d hd =>
      ⟨hmine command hparse d hd, isName_of_parse hparse (n := d) (by simp [hd])⟩
    rw [← session_of_run_ok hrun] at hafter
    exact hafter
  | error e w' =>
    rw [← session_of_run_error hrun] at hs
    exact hs

namespace Shared

/-- What a session answers to a statement: its response, or a failure that no response reports. -/
def outcome (S : Shared) (e : Event) : Option (Except Failure String) :=
  S.sessions[e.session]?.map fun s =>
    match (Operation.respond e.text).run ⟨s, S.files⟩ with
    | .ok response _ => .ok response
    | .error failure _ => .error failure

/-- What session `i` answers to its statements among the events, in order. -/
def outcomes (i : Nat) (S : Shared) : List Event → List (Option (Except Failure String))
  | [] => []
  | e :: events =>
    if e.session = i then S.outcome e :: (S.step e).outcomes i events
    else (S.step e).outcomes i events

/-- The statements of one session. -/
def alone (i : Nat) (events : List Event) : List Event := events.filter (·.session = i)

/-- If the statement is one that is carried out, the databases that it names are among these. -/
def Event.Names (names : String → Prop) (e : Event) : Prop :=
  ∀ command, Command.parse e.text = .ok command → ∀ d ∈ command.databases, names d

/-- Session `i` is the same on both sides and has its own databases; on the first side there are
other sessions, with other databases. The files agree where they are kept. -/
structure Alongside (keep : List String → Prop) (root : Path) (mine theirs : String → Prop)
    (i : Nat) (S S' : Shared) : Prop where
  session : S'.sessions[i]? = S.sessions[i]?
  own : ∀ s, S.sessions[i]? = some s → s.Within root mine
  other : ∀ j ≠ i, ∀ s, S.sessions[j]? = some s → s.Within root theirs
  files : SameOn keep S.files S'.files
  views : Views keep S.files.workingDirectory root mine
  hidden : Hidden keep S.files.workingDirectory root theirs

namespace Alongside

variable {theirs : String → Prop} {i : Nat} {S S' : Shared} {e : Event}

/-- A step of session `i` has the same outcome on both sides. -/
theorem step_own (h : Alongside keep root mine theirs i S S') (hi : e.session = i)
    (hmine : e.Names mine) : S'.outcome e = S.outcome e ∧
      Alongside keep root mine theirs i (S.step e) (S'.step e) := by
  subst hi
  have hsession := h.session
  unfold outcome step
  cases hs : S.sessions[e.session]? with
  | none =>
    rw [hs] at hsession
    rw [hsession]
    exact ⟨rfl, h⟩
  | some s =>
    rw [hs] at hsession
    rw [hsession]
    have hwithin := h.own s hs
    have hresult := h.files.respond h.views hwithin hmine
    -- nothing is kept by a predicate that never holds, so this says where the session works
    have hleaves : Leaves (fun _ => False) S.files ((Operation.respond e.text).run ⟨s, S.files⟩) :=
      Hidden.leaves_respond (fun _ _ _ _ => id) hwithin hmine
    have hafter := hwithin.ends_respond (w := ⟨s, S.files⟩) hmine
    obtain ⟨hindex, -⟩ := List.getElem?_eq_some_iff.1 hs
    obtain ⟨hindex', -⟩ := List.getElem?_eq_some_iff.1 hsession
    dsimp only [Option.map_some]
    generalize (Operation.respond e.text).run ⟨s, S.files⟩ = r,
      (Operation.respond e.text).run ⟨s, S'.files⟩ = r' at hresult hleaves hafter
    have hkept : ∀ {s' : Session} {t t' : FileTree}, s'.Within root mine →
        SameOn (fun _ => False) S.files t → SameOn keep t t' →
        Alongside keep root mine theirs e.session ⟨S.sessions.set e.session s', t⟩
          ⟨S'.sessions.set e.session s', t'⟩ := by
      intro s' t t' hs' hleaves hfiles
      refine ⟨by simp [hindex, hindex'], fun s₁ hs₁ => ?_, fun j hj s₁ hs₁ => ?_, hfiles, ?_, ?_⟩
      · obtain rfl : s' = s₁ := by simpa [hindex] using hs₁
        exact hs'
      · exact h.other j hj s₁ (by simpa [Ne.symm hj] using hs₁)
      · exact hleaves.workingDirectory ▸ h.views
      · exact hleaves.workingDirectory ▸ h.hidden
    cases hresult with
    | ok hfiles => exact ⟨rfl, hkept hafter hleaves hfiles⟩
    | error hfiles => exact ⟨rfl, hkept hafter hleaves hfiles⟩

/-- A step of another session makes no difference. -/
theorem step_other (h : Alongside keep root mine theirs i S S') (hi : e.session ≠ i)
    (htheirs : e.Names theirs) : Alongside keep root mine theirs i (S.step e) S' := by
  unfold step
  cases hs : S.sessions[e.session]? with
  | none => exact h
  | some s =>
    have hwithin := h.other _ hi s hs
    have hleaves := Hidden.leaves_respond (w := ⟨s, S.files⟩) h.hidden hwithin htheirs
    have hafter := hwithin.ends_respond (w := ⟨s, S.files⟩) htheirs
    obtain ⟨hindex, -⟩ := List.getElem?_eq_some_iff.1 hs
    dsimp only
    generalize (Operation.respond e.text).run ⟨s, S.files⟩ = r at hleaves hafter
    have hkept : ∀ {s' : Session} {t : FileTree}, s'.Within root theirs → SameOn keep S.files t →
        Alongside keep root mine theirs i ⟨S.sessions.set e.session s', t⟩ S' := by
      intro s' t hs' hleaves
      refine ⟨by simp [hi, h.session], fun s₁ hs₁ => ?_, fun j hj s₁ hs₁ => ?_,
        hleaves.symm.trans h.files, ?_, ?_⟩
      · exact h.own s₁ (by simpa [hi] using hs₁)
      · by_cases hsame : j = e.session
        · subst hsame
          obtain rfl : s' = s₁ := by simpa [hindex] using hs₁
          exact hs'
        · exact h.other j hj s₁ (by simpa [Ne.symm hsame] using hs₁)
      · exact hleaves.workingDirectory ▸ h.views
      · exact hleaves.workingDirectory ▸ h.hidden
    cases r with
    | ok a w => exact hkept hafter hleaves
    | error e' w => exact hkept hafter hleaves

/-- Session `i` answers what it would answer alone. -/
theorem run (h : Alongside keep root mine theirs i S S') {events : List Event}
    (hevents : ∀ e ∈ events, e.Names (if e.session = i then mine else theirs)) :
    S.outcomes i events = S'.outcomes i (alone i events) ∧
      Alongside keep root mine theirs i (S.run events) (S'.run (alone i events)) := by
  induction events generalizing S S' with
  | nil => exact ⟨rfl, h⟩
  | cons e events ih =>
    have hrest : ∀ e ∈ events, e.Names (if e.session = i then mine else theirs) :=
      fun e' he' => hevents e' (List.mem_cons_of_mem e he')
    have he := hevents e (by simp)
    by_cases hi : e.session = i
    · rw [if_pos hi] at he
      obtain ⟨houtcome, hstep⟩ := h.step_own hi he
      obtain ⟨houtcomes, hrun⟩ := ih hstep hrest
      rw [alone, List.filter_cons_of_pos (by simpa using hi)]
      refine ⟨?_, hrun⟩
      rw [outcomes, outcomes, if_pos hi, if_pos hi, houtcome, houtcomes]
      rfl
    · rw [if_neg hi] at he
      obtain ⟨houtcomes, hrun⟩ := ih (h.step_other hi he) hrest
      rw [alone, List.filter_cons_of_neg (by simpa using hi)]
      refine ⟨?_, hrun⟩
      rw [outcomes, if_neg hi, houtcomes]
      rfl

end Alongside

/-! ### A root directory that is not there -/

/-- Where the root leads nowhere no command goes well. -/
theorem exists_error_of_run {w : World} (hselected : w.session.selected = none)
    (hroot : ∀ place, w.files.leads w.session.root ≠ .ok place)
    (hnames : ∀ d ∈ command.databases, IsName d) : ∃ e, command.run.run w = .error e w := by
  have hplace : ∀ d ∈ command.databases, ∀ q, w.files.locate (w.session.root.join d) ≠ .ok q := by
    intro d hd q hq
    obtain ⟨place, hplace, -⟩ :=
      (FileTree.leads_join_eq_ok_iff (hnames d hd).isPart).1 (FileTree.leads_of_locate hq)
    exact hroot place hplace
  have hdirectory : ∀ d ∈ command.databases,
      w.files.isDirectory (w.session.root.join d) ≠ .ok true := by
    intro d hd h
    obtain ⟨q, hq⟩ := FileTree.exists_place_of_isDirectory h
    exact hplace d hd q hq
  have hpath : ∀ n path, w.session.tablePath n ≠ .ok path := by
    intro n path h
    rw [Session.tablePath, hselected] at h
    cases h
  cases hrun : command.run.run w with
  | error e w' =>
    rcases Operation.cases_of_run_error hrun with rfl | ⟨d, _, files, rfl, hremove, rfl⟩ |
      ⟨path, t, _, _, hsaves, -⟩
    · exact ⟨e, rfl⟩
    · have hd : d ∈ (Command.dropDatabase d).databases := by simp [Command.databases]
      obtain rfl : files = w.files := by
        refine FileTree.eq_of_removeTree_error ?_ (fun q hq => absurd hq (hplace d hd q)) hremove
        rw [Path.join_of_isPart (hnames d hd).isPart]
        simp
      exact ⟨e, rfl⟩
    · obtain ⟨n, -, h⟩ := hsaves.exists_tablePath
      exact absurd h (hpath n path)
  | ok a w' =>
    obtain ⟨files, -, hsucceeds⟩ := Command.run_eq_ok_iff.1 hrun
    cases hsucceeds with
    | use h => exact absurd h (hdirectory _ (by simp [Command.databases]))
    | createDatabase _ hmake =>
      obtain ⟨q, hq, -⟩ := FileTree.exists_place_of_makeDirectory hmake
      exact absurd hq (hplace _ (by simp [Command.databases]) q)
    | dropDatabase h => exact absurd h (hdirectory _ (by simp [Command.databases]))
    | createTable h => exact absurd h (hpath _ _)
    | dropTable h => exact absurd h (hpath _ _)
    | change _ h => exact absurd h (hpath _ _)
    | query hquery ha =>
      have hunselected := Command.query?_eq_error hquery (World.table_eq_error hselected)
      cases ha.symm.trans hunselected

variable {S : Shared} {i : Nat}

theorem step_of_not_leads (hstart : ∀ s ∈ S.sessions, s = ⟨root, none⟩)
    (hroot : ∀ place, S.files.leads root ≠ .ok place) (e : Event) : S.step e = S := by
  cases hsession : S.sessions[e.session]? with
  | none => simp [step, hsession]
  | some s =>
    obtain rfl := hstart s (List.mem_of_getElem? hsession)
    rw [step_eq hsession, Operation.run_execute]
    cases hparse : Command.parse e.text with
    | error error => exact congrArg (Shared.mk · S.files) (set_session_self hsession)
    | ok command =>
      have hnames : ∀ d ∈ command.databases, IsName d :=
        fun d hd => isName_of_parse hparse (by simp [hd])
      obtain ⟨error, herror⟩ :=
        exists_error_of_run (w := ⟨⟨root, none⟩, S.files⟩) rfl hroot hnames
      dsimp only
      rw [herror]
      exact congrArg (Shared.mk · S.files) (set_session_self hsession)

theorem run_of_not_leads (hstart : ∀ s ∈ S.sessions, s = ⟨root, none⟩)
    (hroot : ∀ place, S.files.leads root ≠ .ok place) (events : List Event) :
    S.run events = S ∧ S.outcomes i events = S.outcomes i (alone i events) := by
  induction events with
  | nil => exact ⟨rfl, rfl⟩
  | cons e events ih =>
    have hstep := step_of_not_leads hstart hroot e
    refine ⟨by rw [run, List.foldl_cons, hstep]; exact ih.1, ?_⟩
    by_cases hi : e.session = i
    · rw [alone, List.filter_cons_of_pos (by simpa using hi), outcomes, outcomes, if_pos hi,
        if_pos hi, hstep, ih.2]
      rfl
    · rw [alone, List.filter_cons_of_neg (by simpa using hi), outcomes, if_neg hi, hstep, ih.2]
      rfl

/-! ### Sessions on one root directory -/

/-- A path without `..` leads to its directory also without an entry of the directory. -/
theorem leads_remove {files : FileTree} {place : List String} (hdots : ".." ∉ root.names)
    (h : files.leads root = .ok place) (d : String) :
    (files.remove (place ++ [d])).leads root = .ok place := by
  have hplace : place = placeOf files.workingDirectory root := FileTree.eq_target_of_follow h
  have hlength := FileTree.length_target hdots (FileTree.startOf files.workingDirectory root)
  have hencoding : (files.remove (place ++ [d])).encoding = files.encoding := rfl
  refine (FileTree.follow_congr hencoding fun q hq => ?_).trans h
  have hq : q ∈ FileTree.lookups (FileTree.startOf files.workingDirectory root) root.names := hq
  have hshort := FileTree.length_lt_of_mem_lookups hdots hq
  rw [FileTree.at?_remove _ (by simp), if_neg]
  intro hprefix
  have hle := hprefix.length_le
  rw [hplace, placeOf, List.length_append, List.length_singleton] at hle
  omega

/-- What a session looks at is outside the databases of the others, if the path to the root leads
there without any of these. -/
theorem views_of_leads {theirs : String → Prop} {files : FileTree} {place : List String}
    (hdisjoint : ∀ d, mine d → ¬ theirs d)
    (hroot : ∀ d, theirs d → (files.remove (place ++ [d])).leads root = .ok place) :
    Views (fun q => ∀ d, theirs d → ¬ place ++ [d] <+: q) files.workingDirectory root mine := by
  have hplace : ∀ d, theirs d → placeOf files.workingDirectory root = place :=
    fun d hd => (FileTree.eq_target_of_follow (hroot d hd)).symm
  refine ⟨?_, ?_, ?_, ?_⟩
  · intro q hq d hd
    exact FileTree.not_prefix_of_follow_remove (by simp) (hroot d hd) q hq
  · intro d hd hprefix
    have hlength := hprefix.length_le
    rw [hplace d hd, List.length_append, List.length_singleton] at hlength
    omega
  · intro d hd d' hd' hprefix
    rw [hplace d' hd', List.prefix_append_right_inj] at hprefix
    obtain rfl : d' = d := by simpa using hprefix
    exact hdisjoint d' hd hd'
  · intro d f hd d' hd' hprefix
    rw [hplace d' hd', List.prefix_append_right_inj] at hprefix
    obtain rfl : d' = d := by simpa using hprefix
    exact hdisjoint d' hd hd'

/-- Sessions start on one root directory, and those other than session `i` never name a database
that it names. Then it answers what it would answer alone, its selection is the same, and so is all
that is in the databases that it may name. The path to the root must lead there also without a
database of the others, as any path without `..` does (`leads_remove`). -/
theorem outcomes_alone {sessions : List Session} {files : FileTree} {theirs : String → Prop}
    {events : List Event} (hstart : ∀ s ∈ sessions, s = ⟨root, none⟩)
    (hdisjoint : ∀ d, mine d → ¬ theirs d)
    (hroot : ∀ place, files.leads root = .ok place →
      ∀ d, theirs d → (files.remove (place ++ [d])).leads root = .ok place)
    (hevents : ∀ e ∈ events, e.Names (if e.session = i then mine else theirs)) :
    let start : Shared := ⟨sessions, files⟩
    let S := start.run events
    let S' := start.run (alone i events)
    start.outcomes i events = start.outcomes i (alone i events) ∧
      S.sessions[i]? = S'.sessions[i]? ∧
      ∀ place, files.leads root = .ok place → ∀ d, mine d → ∀ q,
        S.files.at? (place ++ d :: q) = S'.files.at? (place ++ d :: q) := by
  intro start S S'
  cases hleads : files.leads root with
  | error r =>
    have hnowhere : ∀ place, start.files.leads root ≠ .ok place := by
      intro place h
      cases hleads.symm.trans h
    obtain ⟨hrun, houtcomes⟩ := run_of_not_leads (i := i) hstart hnowhere events
    obtain ⟨hrun', -⟩ := run_of_not_leads (i := i) hstart hnowhere (alone i events)
    exact ⟨houtcomes, congrArg (·.sessions[i]?) (hrun.trans hrun'.symm), fun place h => by cases h⟩
  | ok place =>
    have hplace : place = placeOf files.workingDirectory root := FileTree.eq_target_of_follow hleads
    have hfree : ∀ s ∈ sessions, ∀ names : String → Prop, s.Within root names := by
      intro s hs names
      obtain rfl := hstart s hs
      exact ⟨rfl, by simp⟩
    have hbeside : Alongside (fun q => ∀ d, theirs d → ¬ place ++ [d] <+: q) root mine theirs i
        start start := by
      refine ⟨rfl, fun s hs => hfree s (List.mem_of_getElem? hs) _,
        fun j _ s hs => hfree s (List.mem_of_getElem? hs) _, .refl _ _,
        views_of_leads hdisjoint (hroot place hleads), ?_⟩
      intro d hd q hprefix hkeep
      exact hkeep d hd (hplace ▸ hprefix)
    obtain ⟨houtcomes, hend⟩ := hbeside.run hevents
    refine ⟨houtcomes, hend.session.symm, ?_⟩
    intro place' hplace' d hd q
    cases hplace'
    refine (hend.files.at?_eq _ fun d' hd' hprefix => ?_).symm
    rw [List.prefix_append_right_inj] at hprefix
    obtain rfl : d' = d := by simpa using hprefix
    exact hdisjoint d' hd hd'

/-- Two sessions, one with the database `a` and one that fills and drops the database `b`. -/
def sampleTurns : List Event :=
  [⟨0, "CREATE DATABASE a;"⟩, ⟨1, "USE b;"⟩, ⟨0, "CREATE TABLE t (x);"⟩,
    ⟨1, "INSERT INTO t VALUES ('y');"⟩, ⟨1, "DROP DATABASE b;"⟩, ⟨0, "INSERT INTO t VALUES (7);"⟩,
    ⟨0, "SELECT * FROM t;"⟩]

def sampleBeside : Shared :=
  ⟨[⟨⟨0, ["r"]⟩, none⟩, ⟨⟨0, ["r"]⟩, none⟩], ⟨[], [(["r"], .directory),
    (["r", "b"], .directory), (["r", "b", "t.tab"], .file (.text "id\tx\n"))], .utf8⟩⟩

theorem names_of_parse {text : String} {names : String → Prop} (command : Command)
    (hparse : Command.parse text = .ok command) (hnames : ∀ d ∈ command.databases, names d)
    (i : Nat) : Event.Names names ⟨i, text⟩ := by
  intro command' hparse'
  cases hparse.symm.trans hparse'
  exact hnames

theorem names_sampleTurns : ∀ e ∈ sampleTurns,
    e.Names (if e.session = 0 then (· = "a") else (· = "b")) := by
  intro e he
  simp only [sampleTurns, List.mem_cons, List.not_mem_nil, or_false] at he
  rcases he with rfl | rfl | rfl | rfl | rfl | rfl | rfl
  · exact names_of_parse (.createDatabase "a") (by with_unfolding_all rfl)
      (by simp [Command.databases]) 0
  · exact names_of_parse (.use "b") (by with_unfolding_all rfl) (by simp [Command.databases]) 1
  · exact names_of_parse (.createTable "t" ["x"]) (by with_unfolding_all rfl)
      (by simp [Command.databases]) 0
  · exact names_of_parse (.insert "t" ["y"]) (by with_unfolding_all rfl)
      (by simp [Command.databases]) 1
  · exact names_of_parse (.dropDatabase "b") (by with_unfolding_all rfl)
      (by simp [Command.databases]) 1
  · exact names_of_parse (.insert "t" ["7"]) (by with_unfolding_all rfl)
      (by simp [Command.databases]) 0
  · exact names_of_parse (.select "t" .all none) (by with_unfolding_all rfl)
      (by simp [Command.databases]) 0

/-- What becomes of the files and of session 0 when it is alone. -/
theorem run_alone_sampleTurns : sampleBeside.run (alone 0 sampleTurns) =
    ⟨[⟨⟨0, ["r"]⟩, some ⟨"a", ⟨0, ["r", "a"]⟩⟩⟩, ⟨⟨0, ["r"]⟩, none⟩], ⟨[], [(["r"], .directory),
      (["r", "b"], .directory), (["r", "b", "t.tab"], .file (.text "id\tx\n")),
      (["r", "a"], .directory), (["r", "a", "t.tab"], .file (.text "id\tx\n1\t7\n"))],
      .utf8⟩⟩ := by
  decide +kernel

theorem outcomes_alone_sampleTurns : sampleBeside.outcomes 0 (alone 0 sampleTurns) =
    [some (.ok "[OK]\n"), some (.ok "[OK]\n"), some (.ok "[OK]\n"),
      some (.ok "[OK]\nid\tx\n1\t7\n")] := by
  decide +kernel

/-- The session with the database `a` does not notice what becomes of the database `b`. -/
theorem outcomes_alone_sample :
    (sampleBeside.run sampleTurns).files.at? ["r", "b"] = none ∧
    sampleBeside.outcomes 0 sampleTurns = [some (.ok "[OK]\n"), some (.ok "[OK]\n"),
      some (.ok "[OK]\n"), some (.ok "[OK]\nid\tx\n1\t7\n")] ∧
    (sampleBeside.run sampleTurns).sessions[0]? =
      some ⟨⟨0, ["r"]⟩, some ⟨"a", ⟨0, ["r", "a"]⟩⟩⟩ ∧
    (sampleBeside.run sampleTurns).files.at? ["r", "a", "t.tab"] =
      some (.file (.text "id\tx\n1\t7\n")) := by
  have hstart : ∀ s ∈ sampleBeside.sessions, s = ⟨⟨0, ["r"]⟩, none⟩ := by simp [sampleBeside]
  have hleads : sampleBeside.files.leads ⟨0, ["r"]⟩ = .ok ["r"] := rfl
  have hroot : ∀ place, sampleBeside.files.leads ⟨0, ["r"]⟩ = .ok place → ∀ d, d = "b" →
      (sampleBeside.files.remove (place ++ [d])).leads ⟨0, ["r"]⟩ = .ok place :=
    fun place h d _ => leads_remove (by simp) h d
  have hdisjoint : ∀ d, d = "a" → ¬ d = "b" := by simp
  obtain ⟨houtcomes, hsession, hfiles⟩ :=
    outcomes_alone hstart hdisjoint hroot names_sampleTurns
  rw [run_alone_sampleTurns] at hsession hfiles
  have hdropped : (sampleBeside.run sampleTurns).files.at? ["r", "b"] = none := by decide +kernel
  exact ⟨hdropped, houtcomes.trans outcomes_alone_sampleTurns, hsession,
    hfiles ["r"] hleads "a" rfl ["t.tab"]⟩

/-- Two sessions, one with the database `a` and one that drops the database `b`. -/
def throughTurns : List Event :=
  [⟨0, "USE a;"⟩, ⟨1, "DROP DATABASE b;"⟩, ⟨0, "CREATE TABLE t;"⟩]

/-- The path to their root directory leads through the database `b`. -/
def throughBeside : Shared :=
  ⟨[⟨⟨0, ["b", ".."]⟩, none⟩, ⟨⟨0, ["b", ".."]⟩, none⟩],
    ⟨[], [(["a"], .directory), (["b"], .directory)], .utf8⟩⟩

theorem names_throughTurns : ∀ e ∈ throughTurns,
    e.Names (if e.session = 0 then (· = "a") else (· = "b")) := by
  intro e he
  simp only [throughTurns, List.mem_cons, List.not_mem_nil, or_false] at he
  rcases he with rfl | rfl | rfl
  · exact names_of_parse (.use "a") (by with_unfolding_all rfl) (by simp [Command.databases]) 0
  · exact names_of_parse (.dropDatabase "b") (by with_unfolding_all rfl)
      (by simp [Command.databases]) 1
  · exact names_of_parse (.createTable "t" []) (by with_unfolding_all rfl)
      (by simp [Command.databases]) 0

/-- What the session with the database `a` works on when the database on the way is dropped. -/
def throughDropped : World :=
  ⟨⟨⟨0, ["b", ".."]⟩, some ⟨"a", ⟨0, ["b", "..", "a"]⟩⟩⟩, ⟨[], [(["a"], .directory)], .utf8⟩⟩

/-- It then fails where it would go well alone. -/
theorem outcomes_ne_alone_through :
    (∀ s ∈ throughBeside.sessions, s = ⟨⟨0, ["b", ".."]⟩, none⟩) ∧
    (∀ e ∈ throughTurns, e.Names (if e.session = 0 then (· = "a") else (· = "b"))) ∧
    (∃ message : String, throughBeside.outcomes 0 throughTurns =
      [some (.ok "[OK]\n"), some (.ok s!"[ERROR] {message}\n")]) ∧
    throughBeside.outcomes 0 (alone 0 throughTurns) =
      [some (.ok "[OK]\n"), some (.ok "[OK]\n")] := by
  have hdropped : (throughBeside.step ⟨0, "USE a;"⟩).step ⟨1, "DROP DATABASE b;"⟩ =
      ⟨[throughDropped.session, ⟨⟨0, ["b", ".."]⟩, none⟩], throughDropped.files⟩ := by
    decide +kernel
  have hselected : throughBeside.outcome ⟨0, "USE a;"⟩ = some (.ok "[OK]\n") := by decide +kernel
  have hparse : Command.parse "CREATE TABLE t;" = .ok (.createTable "t" []) := by
    decide +kernel
  have hfailed : (Operation.execute "CREATE TABLE t;").run throughDropped = .error
      (.operation (.unwritable "t" ⟨.missing, ⟨0, ["b", "..", "a", "t.tab"]⟩, .utf8⟩))
      throughDropped := by
    rw [Operation.run_execute_of_parse hparse]
    rfl
  have hrespond := Operation.run_respond_of_error hfailed rfl
  have houtcome {message : String}
      (h : (Operation.respond "CREATE TABLE t;").run throughDropped =
        .ok s!"[ERROR] {message}\n" throughDropped) :
      throughBeside.outcomes 0 throughTurns =
        [some (.ok "[OK]\n"), some (.ok s!"[ERROR] {message}\n")] := by
    rw [throughTurns, outcomes, if_pos rfl, outcomes, if_neg (by decide), hdropped, outcomes,
      if_pos rfl, hselected, outcomes, outcome, List.getElem?_cons_zero, Option.map_some, h]
  exact ⟨by simp [throughBeside], names_throughTurns, ⟨_, houtcome hrespond⟩, by decide +kernel⟩

end Shared

end Tabula
