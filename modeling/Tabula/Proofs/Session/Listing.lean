import Tabula.Proofs.Session.Selection

/-!
# Listings

The tables of the selected database can be listed in every session that is reached, even if the
directory of the database is gone. The databases cannot if the root directory is gone, or if a name
in it makes too long a path with it (`World.Listable`).
-/

namespace Tabula

/-- The root directory can be listed, and each name in it can be asked for by its path. -/
def World.Listable (w : World) : Prop :=
  ∃ children, w.files.list w.session.root = .ok children ∧
    ∀ c ∈ children, ∃ there, w.files.isDirectory (w.session.root.join c.1) = .ok there

namespace Operation

variable {w : World}

/-! ### Databases -/

theorem exists_directories {path : Path} {ns : List String}
    (h : ∀ n ∈ ns, ∃ there, w.files.isDirectory (path.join n) = .ok there) :
    ∃ names, (directories path ns).run w = .ok names w := by
  have hanswer : ∀ n ∈ ns, w.files.isDirectory (path.join n) =
      .ok (decide (w.files.isDirectory (path.join n) = .ok true)) := by
    intro n hn
    obtain ⟨there, hthere⟩ := h n hn
    cases there <;> simp [hthere]
  exact ⟨_, run_directories hanswer⟩

theorem exists_directories_error {path : Path} {ns : List String} {n : String} {e : FileError}
    (hn : n ∈ ns) (h : w.files.isDirectory (path.join n) = .error e) :
    ∃ e', (directories path ns).run w = .error e' w := by
  induction ns with
  | nil => cases hn
  | cons m ns ih =>
    rw [run_directories_cons]
    cases hm : w.files.isDirectory (path.join m) with
    | error e' => exact ⟨.file e', rfl⟩
    | ok there =>
      have hlater : n ∈ ns := by
        rcases List.mem_cons.1 hn with rfl | hn
        · cases h.symm.trans hm
        · exact hn
      obtain ⟨e', hrest⟩ := ih hlater
      exact ⟨e', by rw [hrest]⟩

theorem exists_databases (h : w.Listable) : ∃ names, databases.run w = .ok names w := by
  obtain ⟨children, hlist, hthere⟩ := h
  obtain ⟨names, hnames⟩ := exists_directories (List.forall_mem_map.2 hthere)
  exact ⟨names.mergeSort (· ≤ ·), by simp only [run_databases, hlist, hnames]⟩

theorem exists_databases_error (h : ¬ w.Listable) : ∃ e, databases.run w = .error e w := by
  rw [run_databases]
  cases hlist : w.files.list w.session.root with
  | error e => exact ⟨.file e, rfl⟩
  | ok children =>
    obtain ⟨c, hc, hrefused⟩ : ∃ c ∈ children, ∀ there,
        w.files.isDirectory (w.session.root.join c.1) ≠ .ok there := by
      by_contra hall
      push Not at hall
      exact h ⟨children, hlist, hall⟩
    cases hask : w.files.isDirectory (w.session.root.join c.1) with
    | ok there => exact absurd hask (hrefused there)
    | error e =>
      obtain ⟨e', hrun⟩ := exists_directories_error (List.mem_map_of_mem hc) hask
      exact ⟨e', by simp only [hrun]⟩

/-! ### Tables -/

theorem exists_tables (hs : w.session.Reachable w.files.encoding) :
    ∃ names, tables.run w = .ok names w := by
  rw [run_tables]
  cases hselected : w.session.selected with
  | none => exact ⟨[], rfl⟩
  | some d =>
    obtain ⟨files, place, hencoding, hlocate⟩ := hs.exists_locate hselected
    obtain ⟨e?, hfind⟩ := FileTree.exists_find?_of_locate hlocate hencoding.symm
    dsimp only
    cases hdirectory : w.files.isDirectory d.path with
    | error e => simp [FileTree.isDirectory, hfind, Except.map] at hdirectory
    | ok there =>
      cases there with
      | false => exact ⟨[], rfl⟩
      | true =>
        obtain ⟨children, hlist⟩ := FileTree.exists_list_of_isDirectory hdirectory
        simp only [hlist]
        exact ⟨_, rfl⟩

end Operation

end Tabula
