import Tabula.Proofs.Session.Isolation
import Tabula.Proofs.Session.Unselected

/-!
# The selected database

A session selects a directory, and as long as nobody else changes the files, this stays one. A
command other than a removal takes no directory away (`Command.kept_of_run`). A removal takes away
one database: if it is the selected one, none is selected after it, and the way to another one does
not lead through it (`Anchored.isDirectory_of_dropDatabase`). This needs a path to the root
directory that leads there without any of the databases in it, as any path without `..` does.
-/

namespace Tabula

open FileTree (Kept Sees SameOn placeOf)
open Operation

variable {w w' : World} {command : Command} {a : Answer} {root : Path}

/-- A command that removes no database leaves all directories. -/
theorem Command.kept_of_run (hdrop : ∀ d, command ≠ .dropDatabase d)
    (h : command.run.run w = .ok a w') : Kept w.files w'.files := by
  obtain ⟨files, rfl, hsucceeds⟩ := Command.run_eq_ok_iff.1 h
  cases hsucceeds with
  | use => exact ⟨rfl, rfl, fun _ hq => hq⟩
  | createDatabase _ hmake => exact (FileTree.isDirectory_of_makeDirectory hmake).2
  | dropDatabase => exact absurd rfl (hdrop _)
  | createTable _ _ _ hwrite => exact FileTree.kept_of_writeFile hwrite
  | dropTable _ _ hdelete => exact FileTree.kept_of_deleteFile hdelete
  | change _ _ _ _ hwrite => exact FileTree.kept_of_writeFile hwrite
  | query => exact ⟨rfl, rfl, fun _ hq => hq⟩

/-! ### Selected databases are there -/

/-- The places outside a database. -/
def Outside (workingDirectory : List String) (root : Path) (d : String) (q : List String) : Prop :=
  ¬ placeOf workingDirectory root ++ [d] <+: q

theorem hidden_outside (workingDirectory : List String) (root : Path) (d : String) :
    Hidden (Outside workingDirectory root d) workingDirectory root (· = d) := by
  rintro _ rfl q hq hout
  exact hout hq

/-- The session works below a root directory, whose path leads there without any of its databases,
and what it has selected is a directory. -/
structure Anchored (root : Path) (w : World) : Prop where
  within : w.session.Within root IsName
  views : ∀ d, IsName d → Views (Outside w.files.workingDirectory root d)
    w.files.workingDirectory root (· ≠ d)
  present : ∀ d ∈ w.session.selected, w.files.isDirectory d.path = .ok true

theorem anchored_start {files : FileTree} {place : List String}
    (hleads : files.leads root = .ok place)
    (hroot : ∀ d, IsName d → (files.remove (place ++ [d])).leads root = .ok place) :
    Anchored root ⟨⟨root, none⟩, files⟩ := by
  refine ⟨⟨rfl, by simp⟩, fun d hd => ?_, by simp⟩
  have hplace : place = placeOf files.workingDirectory root := FileTree.eq_target_of_follow hleads
  have houtside : (fun q => ∀ d', d' = d → ¬ place ++ [d'] <+: q) =
      Outside files.workingDirectory root d := by
    funext q
    simp [Outside, hplace]
  rw [← houtside]
  exact Shared.views_of_leads (fun _ h => h) fun d' hd' => hd' ▸ hroot d hd

namespace Anchored

/-- A removal of a database leaves all that is outside it. -/
theorem sameOn_removeTree (files : FileTree) (root : Path) {d : String} (hd : IsName d) :
    SameOn (Outside files.workingDirectory root d) files (files.removeTree (root.join d)).2 :=
  SameOn.of_removeTree ((hidden_outside _ root d).database hd rfl)

variable (h : Anchored root w)

include h

/-- A removal that fails takes nothing away: the path leads to the database also when this has been
cleared. -/
theorem eq_of_removeTree_error {d : String} (hd : IsName d) {e : FileError} {files : FileTree}
    (hremove : w.files.removeTree (root.join d) = (.error e, files)) : files = w.files := by
  refine FileTree.eq_of_removeTree_error ?_ (fun place hplace => ?_) hremove
  · rw [Path.join_of_isPart hd.isPart]
    simp
  · have hcleared := SameOn.of_clear ((hidden_outside _ root d).database hd rfl) hplace
    rw [hcleared.locate_eq ((h.views d hd).sees_database hd), hplace]

theorem of_run_error {e : Failure} (hnames : ∀ d ∈ command.databases, IsName d)
    (hrun : command.run.run w = .error e w') : Anchored root w' := by
  rcases cases_of_run_error hrun with rfl | ⟨d, fault, files, hdrop, hremove, rfl⟩ |
    ⟨path, t, place, fault, -, -, hplace, -, -, rfl⟩
  · exact h
  · rw [h.within.below] at hremove
    rwa [h.eq_of_removeTree_error (hnames d (by simp [hdrop, Command.databases])) hremove]
  · -- the file that is emptied is no directory
    have hkept := FileTree.kept_put hplace (.file (.text ""))
    exact ⟨h.within, h.views, fun d hd => FileTree.isDirectory_of_kept hkept (h.present d hd)⟩

/-- What is selected after a removal is another database. -/
theorem isDirectory_of_dropDatabase {d : String} (hd : IsName d)
    (hrun : (Command.dropDatabase d).run.run w = .ok a w') :
    w'.files.workingDirectory = w.files.workingDirectory ∧
      ∀ d' ∈ w'.session.selected, w'.files.isDirectory d'.path = .ok true := by
  have hsame := sameOn_removeTree w.files root hd
  have hfiles : w'.files = (w.files.removeTree (root.join d)).2 := by
    obtain ⟨files, rfl, hsucceeds⟩ := Command.run_eq_ok_iff.1 hrun
    cases hsucceeds with
    | dropDatabase _ hremove =>
      rw [h.within.below] at hremove
      rw [hremove]
    | change hchange => cases hchange
    | query hquery => cases hquery
  rw [← hfiles] at hsame
  refine ⟨hsame.workingDirectory, fun d' hd' => ?_⟩
  rcases Command.isDirectory_of_run hrun hd' with ⟨hbefore, hdrop⟩ | hdirectory
  · obtain ⟨-, hname, hpath⟩ := h.within.selected d' hbefore
    have hother : d'.database ≠ d := fun hsame => hdrop (by rw [hsame])
    have hpresent := h.present d' hbefore
    rw [hpath] at hpresent ⊢
    rw [hsame.isDirectory_eq ((h.views d hd).sees_database hname)
      ((h.views d hd).keep_database hname hother), hpresent]
  · exact hdirectory

theorem of_run_ok (hnames : ∀ d ∈ command.databases, IsName d)
    (hrun : command.run.run w = .ok a w') : Anchored root w' := by
  have hwithin : w'.session.Within root IsName := by
    rw [session_of_run_ok hrun]
    exact h.within.after fun d hd => ⟨hnames d hd, hnames d hd⟩
  by_cases hdrop : ∃ d, command = .dropDatabase d
  · obtain ⟨d, rfl⟩ := hdrop
    obtain ⟨hstays, hpresent⟩ :=
      h.isDirectory_of_dropDatabase (hnames d (by simp [Command.databases])) hrun
    exact ⟨hwithin, hstays ▸ h.views, hpresent⟩
  · have hkept := Command.kept_of_run (fun d hd => hdrop ⟨d, hd⟩) hrun
    refine ⟨hwithin, hkept.workingDirectory ▸ h.views, fun d hd => ?_⟩
    rcases Command.isDirectory_of_run hrun hd with ⟨hbefore, -⟩ | hdirectory
    · exact FileTree.isDirectory_of_kept hkept (h.present d hbefore)
    · exact hdirectory

/-- Whatever is said to the session, what it has selected is a directory after it. -/
theorem respond (text : String) : Ends (Anchored root) ((Operation.respond text).run w) := by
  refine ends_respond h fun command hparse => ?_
  have hnames : ∀ d ∈ command.databases, IsName d :=
    fun d hd => isName_of_parse hparse (n := d) (by simp [hd])
  cases hrun : command.run.run w with
  | ok a w' => exact h.of_run_ok hnames hrun
  | error e w' => exact h.of_run_error hnames hrun

end Anchored

/-! ### Runs of statements -/

/-- The world after a response to a statement. -/
def World.next (w : World) (text : String) : World :=
  match (Operation.respond text).run w with
  | .ok _ w' | .error _ w' => w'

/-- The world after responses to statements, one after the other. -/
def World.run (w : World) (texts : List String) : World := texts.foldl next w

theorem Anchored.next (h : Anchored root w) (text : String) : Anchored root (w.next text) := by
  have hends := h.respond text
  unfold World.next
  cases hrespond : (Operation.respond text).run w with
  | ok response w' => rwa [hrespond] at hends
  | error e w' => rwa [hrespond] at hends

theorem Anchored.run (h : Anchored root w) (texts : List String) : Anchored root (w.run texts) := by
  induction texts generalizing w with
  | nil => exact h
  | cons text texts ih => exact ih (h.next text)

/-- A session starts on a root directory whose path leads there also without any of the databases
in it, as every path without `..` does (`Shared.leads_remove`). After any statements the database
that is selected, if one is, is a directory below the root, and the next statement has the response
that none is selected exactly if it is a command on tables and none is. -/
theorem selected_of_run {files files' : FileTree} {s : Session}
    (hstart : Session.start root files = (.ok s, files'))
    (hroot : ∀ place, files'.leads root = .ok place →
      ∀ d, IsName d → (files'.remove (place ++ [d])).leads root = .ok place)
    (texts : List String) :
    let w := World.run ⟨s, files'⟩ texts
    (w.session.selected = none ∨ ∃ d, w.session.selected = some ⟨d, root.join d⟩ ∧
      w.files.isDirectory (root.join d) = .ok true) ∧
    ∀ text, (∃ w', (respond text).run w = .ok "[ERROR] No database selected\n" w') ↔
      w.session.selected = none ∧
        ∃ command, Command.parse text = .ok command ∧ command.tables ≠ [] := by
  intro w
  have hw : Anchored root w := by
    unfold Session.start at hstart
    split at hstart
    · rename_i hmake
      cases hstart
      obtain ⟨place, hlocate, -⟩ :=
        FileTree.isDirectory_iff.1 (FileTree.isDirectory_of_makeDirectories hmake)
      have hleads := FileTree.leads_of_locate hlocate
      exact (anchored_start hleads (hroot place hleads)).run texts
    · cases hstart
  refine ⟨?_, fun text => respond_unselected_iff⟩
  cases hselected : w.session.selected with
  | none => exact .inl rfl
  | some d =>
    obtain ⟨-, -, hpath⟩ := hw.within.selected d hselected
    refine .inr ⟨d.database, by rw [← hpath], ?_⟩
    rw [← hpath]
    exact hw.present d hselected

/-- A database that is dropped and made again while another one is selected. -/
def sampleSelections : List String :=
  ["CREATE DATABASE a;", "CREATE DATABASE b;", "DROP DATABASE a;", "CREATE DATABASE a;", "USE b;",
    "DROP DATABASE a;"]

/-- A session on a new root directory. -/
def sampleNew : World := ⟨⟨⟨0, ["r"]⟩, none⟩, ⟨[], [(["r"], .directory)], .utf8⟩⟩

/-- The removals of the other database leave the selected one where it is. -/
theorem selected_of_run_sample :
    (sampleNew.run sampleSelections).session.selected = some ⟨"b", ⟨0, ["r", "b"]⟩⟩ ∧
      (sampleNew.run sampleSelections).files.isDirectory ⟨0, ["r", "b"]⟩ = .ok true := by
  have hstart : Session.start ⟨0, ["r"]⟩ .empty = (.ok sampleNew.session, sampleNew.files) := by
    decide +kernel
  have hselected : (sampleNew.run sampleSelections).session.selected =
      some ⟨"b", ⟨0, ["r", "b"]⟩⟩ := by decide +kernel
  have hroot : ∀ place, sampleNew.files.leads ⟨0, ["r"]⟩ = .ok place → ∀ d, IsName d →
      (sampleNew.files.remove (place ++ [d])).leads ⟨0, ["r"]⟩ = .ok place :=
    fun place hleads d _ => Shared.leads_remove (by simp) hleads d
  refine ⟨hselected, ?_⟩
  obtain ⟨hnone | ⟨d, hd, hdirectory⟩, -⟩ := selected_of_run hstart hroot sampleSelections
  · cases hselected.symm.trans hnone
  · cases hselected.symm.trans hd
    exact hdirectory

/-- A session on a root directory whose path leads through a database in it. -/
def sampleThrough : World :=
  ⟨⟨⟨0, ["b", ".."]⟩, none⟩, ⟨[], [(["a"], .directory), (["b"], .directory)], .utf8⟩⟩

/-- When the database on the way is dropped, there is nothing any more where the path of the
selected one leads. -/
theorem not_isDirectory_of_run :
    Session.start ⟨0, ["b", ".."]⟩ sampleThrough.files =
      (.ok sampleThrough.session, sampleThrough.files) ∧
    (sampleThrough.run ["USE a;", "DROP DATABASE b;"]).session.selected =
      some ⟨"a", ⟨0, ["b", "..", "a"]⟩⟩ ∧
    (sampleThrough.run ["USE a;", "DROP DATABASE b;"]).files.isDirectory ⟨0, ["b", "..", "a"]⟩ =
      .ok false := by
  refine ⟨by decide +kernel, by decide +kernel, by decide +kernel⟩

end Tabula
