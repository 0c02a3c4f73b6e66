import Tabula.Proofs.FileTree.Place
import Tabula.Proofs.Session.Failure
import Tabula.Proofs.Session.Success

/-!
# What is selected

A command that goes well selects the database that it names, deselects it, or leaves the session as
it is (`session_of_run_ok`); one that fails leaves the session in any case. What is selected was a
directory once (`Session.Reachable.exists_locate`). Since a directory can be found or made only
under a path without null characters, every session that is ever reached has such paths only
(`Session.Reachable.nullFree`).
-/

namespace Tabula

open Operation

variable {w w' : World} {a : Answer} {e : Failure} {encoding : Text.Encoding}

theorem session_of_run_ok {command : Command} (h : command.run.run w = .ok a w') :
    w'.session = w.session.after command := by
  obtain ⟨files, rfl, -⟩ := Command.run_eq_ok_iff.1 h
  rfl

theorem encoding_of_run_ok {command : Command} (h : command.run.run w = .ok a w') :
    w'.files.encoding = w.files.encoding := by
  obtain ⟨files, rfl, hsucceeds⟩ := Command.run_eq_ok_iff.1 h
  cases hsucceeds with
  | use => rfl
  | createDatabase _ hmake => exact FileTree.encoding_of_makeDirectory hmake
  | dropDatabase _ hremove => exact congrArg (·.2.encoding) hremove ▸ w.files.encoding_removeTree _
  | createTable _ _ _ hwrite =>
    exact congrArg (·.2.encoding) hwrite ▸ w.files.encoding_writeFile _ _
  | dropTable _ _ hdelete => exact FileTree.encoding_of_deleteFile hdelete
  | change _ _ _ _ hwrite => exact congrArg (·.2.encoding) hwrite ▸ w.files.encoding_writeFile _ _
  | query => rfl

theorem encoding_of_run_error {command : Command} (h : command.run.run w = .error e w') :
    w'.files.encoding = w.files.encoding := by
  rcases cases_of_run_error h with rfl | ⟨d, fault, files, -, hremove, rfl⟩ |
    ⟨path, t, place, fault, -, -, -, -, -, rfl⟩
  · rfl
  · exact congrArg (·.2.encoding) hremove ▸ w.files.encoding_removeTree _
  · rfl

/-- A command that fails leaves the session as it was, whatever it has done to the files. -/
theorem session_of_run_error {command : Command} (h : command.run.run w = .error e w') :
    w'.session = w.session := by
  obtain ⟨files, rfl, -⟩ := Command.fails_of_run h
  rfl

/-! ### Sessions without null characters -/

namespace Session

/-- No path of the session has a null character. -/
structure NullFree (s : Session) : Prop where
  root : s.root.NullFree
  selected : ∀ d ∈ s.selected, d.path.NullFree

/-- The sessions that a root directory and any commands lead to, whatever happens to the files
between them. Only the encoding of texts stays the same. -/
inductive Reachable (encoding : Text.Encoding) : Session → Prop
  | start {root : Path} {files files' : FileTree} {s : Session} :
      files.encoding = encoding → Session.start root files = (.ok s, files') →
      Reachable encoding s
  | answered {s : Session} {files : FileTree} {command : Command} {a : Answer} {w : World} :
      files.encoding = encoding → Reachable encoding s →
      command.run.run ⟨s, files⟩ = .ok a w → Reachable encoding w.session
  | failed {s : Session} {files : FileTree} {command : Command} {e : Failure} {w : World} :
      files.encoding = encoding → Reachable encoding s →
      command.run.run ⟨s, files⟩ = .error e w → Reachable encoding w.session

end Session

namespace FileTree

variable {t t' : FileTree} {p : Path}

theorem nullFree_of_locate {place : List String} (h : t.locate p = .ok place) : p.NullFree :=
  (locate_eq_ok_iff.1 h).1

theorem nullFree_of_isDirectory (h : t.isDirectory p = .ok true) : p.NullFree := by
  obtain ⟨place, hlocate⟩ := exists_place_of_isDirectory h
  exact nullFree_of_locate hlocate

end FileTree

theorem nullFree_start {root : Path} {files files' : FileTree} {s : Session}
    (h : Session.start root files = (.ok s, files')) : s.NullFree := by
  unfold Session.start at h
  split at h
  · rename_i hmake
    cases h
    have hdirectory := FileTree.isDirectory_of_makeDirectories hmake
    exact ⟨FileTree.nullFree_of_isDirectory hdirectory, by simp⟩
  · cases h

theorem root_of_run_ok {command : Command} (h : command.run.run w = .ok a w') :
    w'.session.root = w.session.root := by
  rw [session_of_run_ok h]
  cases command <;> rfl

/-- What is selected after a command was selected before and is not what the command removes, or is
a directory. -/
theorem Command.isDirectory_of_run {command : Command} {d : Selection}
    (h : command.run.run w = .ok a w') (hd : d ∈ w'.session.selected) :
    d ∈ w.session.selected ∧ command ≠ .dropDatabase d.database ∨
      w'.files.isDirectory d.path = .ok true := by
  obtain ⟨files, rfl, hsucceeds⟩ := Command.run_eq_ok_iff.1 h
  change d ∈ (w.session.after command).selected at hd
  cases hsucceeds with
  | use hdirectory =>
    obtain rfl : _ = d := by simpa [Session.after] using hd
    exact .inr hdirectory
  | createDatabase _ hmake =>
    obtain rfl : _ = d := by simpa [Session.after] using hd
    exact .inr (FileTree.isDirectory_of_makeDirectory hmake).1
  | dropDatabase =>
    simp only [Session.after, Option.mem_def, Option.filter_eq_some_iff] at hd
    refine .inl ⟨hd.1, fun hsame => ?_⟩
    cases hsame
    simpa using hd.2
  | createTable => exact .inl ⟨hd, by simp⟩
  | dropTable => exact .inl ⟨hd, by simp⟩
  | change hchange =>
    rw [after_of_change? hchange] at hd
    exact .inl ⟨hd, fun hdrop => by rw [hdrop] at hchange; cases hchange⟩
  | query hquery =>
    rw [after_of_query? hquery] at hd
    exact .inl ⟨hd, fun hdrop => by rw [hdrop] at hquery; cases hquery⟩

/-- What a command selects is a directory that is there or was made. -/
theorem exists_locate_of_run_ok {command : Command} (h : command.run.run w = .ok a w')
    {d : Selection} (hd : d ∈ w'.session.selected) :
    d ∈ w.session.selected ∨ ∃ (files : FileTree) (place : List String),
      files.encoding = w.files.encoding ∧ files.locate d.path = .ok place := by
  rcases Command.isDirectory_of_run h hd with ⟨hd, -⟩ | hdirectory
  · exact .inl hd
  · obtain ⟨place, hlocate⟩ := FileTree.exists_place_of_isDirectory hdirectory
    exact .inr ⟨w'.files, place, encoding_of_run_ok h, hlocate⟩

theorem nullFree_of_run_ok {command : Command} (hs : w.session.NullFree)
    (h : command.run.run w = .ok a w') : w'.session.NullFree := by
  refine ⟨root_of_run_ok h ▸ hs.root, fun d hd => ?_⟩
  rcases exists_locate_of_run_ok h hd with hd | ⟨files, place, -, hlocate⟩
  · exact hs.selected d hd
  · exact FileTree.nullFree_of_locate hlocate

/-- No session that is reached has a path with a null character. -/
theorem Session.Reachable.nullFree {s : Session} (h : Reachable encoding s) : s.NullFree := by
  induction h with
  | start _ hstart => exact nullFree_start hstart
  | answered _ _ hrun ih => exact nullFree_of_run_ok ih hrun
  | failed _ _ hrun ih =>
    rw [session_of_run_error hrun]
    exact ih

/-- The directory that is selected was there once, though it need not be there any more. -/
theorem Session.Reachable.exists_locate {s : Session} (h : Reachable encoding s) {d : Selection}
    (hd : d ∈ s.selected) : ∃ (files : FileTree) (place : List String),
      files.encoding = encoding ∧ files.locate d.path = .ok place := by
  induction h with
  | start _ hstart =>
    unfold Session.start at hstart
    split at hstart
    · cases hstart
      cases hd
    · cases hstart
  | answered hencoding _ hrun ih =>
    rcases exists_locate_of_run_ok hrun hd with hd | ⟨files, place, hsame, hlocate⟩
    · exact ih hd
    · exact ⟨files, place, hsame.trans hencoding, hlocate⟩
  | failed _ _ hrun ih =>
    rw [session_of_run_error hrun] at hd
    exact ih hd

end Tabula
