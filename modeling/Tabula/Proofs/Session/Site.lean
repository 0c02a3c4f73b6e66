import Tabula.Proofs.FileTree.Directory
import Tabula.Proofs.Session.Encoded
import Tabula.Proofs.Session.Memory

/-!
# Files that hold what is in memory

Below a directory that was empty, files can hold the databases that are kept in memory
(`Site.Holds`): a database is a directory, and the file of a table has the text of the table. For
each change in memory there is one of the files after which they hold what is in memory then. The
names that are listed in the files are those in memory.
-/

namespace Tabula

open Operation (tableSuffix)
open FileTree (SameOutside)

/-! ### Names -/

theorem mergeSort_eq_of_perm {l l' : List String} (h : l.Perm l') :
    l.mergeSort (· ≤ ·) = l'.mergeSort (· ≤ ·) := by
  have hsorted : ∀ l : List String,
      (l.mergeSort (· ≤ ·)).Pairwise fun a b => decide (a ≤ b) = true := by
    intro l
    refine List.pairwise_mergeSort (fun a b c => ?_) (fun a b => ?_) l
    · simpa using String.le_trans
    · simpa using String.le_total a b
  refine List.Perm.eq_of_pairwise (fun a b _ _ hab hba => ?_) (hsorted l) (hsorted l') ?_
  · exact String.le_antisymm (by simpa using hab) (by simpa using hba)
  · exact (List.mergeSort_perm l _).trans (h.trans (List.mergeSort_perm l' _).symm)

/-- The file of a table tells its name. -/
theorem Operation.tableOfFile?_append {n : String} (hn : n ≠ "") :
    tableOfFile? (n ++ tableSuffix) = some n := by
  have hsuffix : tableSuffix.toList.isSuffixOf (n ++ tableSuffix).toList = true := by
    rw [List.isSuffixOf_iff_suffix, String.toList_append]
    exact List.suffix_append _ _
  have hne : n ++ tableSuffix ≠ tableSuffix := by
    intro h
    exact hn (String.append_eq_right_iff.1 h)
  unfold tableOfFile?
  dsimp only
  rw [if_pos hsuffix, if_neg hne, String.toList_append, List.length_append, String.length_toList,
    String.length_toList, Nat.add_sub_cancel, List.take_left' String.length_toList,
    String.ofList_toList]

theorem Operation.exists_of_tableOfFile? {file n : String} (h : tableOfFile? file = some n) :
    ∃ k, file = k ++ tableSuffix := by
  unfold tableOfFile? at h
  dsimp only at h
  split at h
  · rename_i hsuffix
    obtain ⟨k, hk⟩ := List.isSuffixOf_iff_suffix.1 hsuffix
    refine ⟨String.ofList k, String.toList_injective ?_⟩
    rw [String.toList_append, String.toList_ofList, hk]
  · cases h

/-! ### Room -/

/-- The names and paths of databases and tables with these names are short enough for files. -/
structure Room (e : Text.Encoding) (root : Path) (databases tables : List String) : Prop where
  database : ∀ d ∈ databases, e.size d ≤ FileTree.maxName ∧
    e.size (toString (root.join d)) ≤ FileTree.maxPath
  table : ∀ d ∈ databases, ∀ n ∈ tables, e.size (n ++ tableSuffix) ≤ FileTree.maxName ∧
    e.size (toString ((root.join d).join (n ++ tableSuffix))) ≤ FileTree.maxPath

/-- An empty directory in a tree of files, the path to it, and names for which there is room. -/
structure Site where
  root : Path
  files : FileTree
  place : List String
  databases : List String
  tables : List String
  locate_root : files.locate root = .ok place
  directory : files.at? place = some .directory
  empty : ∀ q ≠ [], files.at? (place ++ q) = none
  room : Room files.encoding root databases tables

namespace Site

variable {S : Site} {w : World} {m : Memory} {d n : String}

def tablePath (S : Site) (d n : String) : Path := (S.root.join d).join (n ++ tableSuffix)

/-- The files hold what is in memory, the session has selected what is selected there, and nothing
else is different from the beginning. -/
structure Holds (S : Site) (w : World) (m : Memory) : Prop where
  root : w.session.root = S.root
  selected : w.session.selected = m.selected.map fun d => ⟨d, S.root.join d⟩
  outside : SameOutside S.place S.files w.files
  known : ∀ d ∈ m.databases, d ∈ S.databases
  database : ∀ d, w.files.at? (S.place ++ [d]) =
    if d ∈ m.databases then some .directory else none
  table : ∀ d n, w.files.at? (S.place ++ [d, n ++ tableSuffix]) =
    (m.table? d n).map fun t => .file (.text t.fileText)
  encoded : ∀ {d n t}, m.table? d n = some t → t.Encoded S.files.encoding
  distinct : ∀ q, (w.files.names (S.place ++ q)).Nodup

/-- Nothing is in the empty directory. -/
theorem holds_empty (S : Site) : S.Holds ⟨⟨S.root, none⟩, S.files⟩ .empty where
  root := rfl
  selected := rfl
  outside := SameOutside.refl _ _
  known := by simp [Memory.empty]
  database d := by
    rw [S.empty [d] (by simp), if_neg (by simp [Memory.empty])]
  table d n := by
    rw [S.empty _ (by simp), Memory.table?_eq_none (by simp [Memory.empty])]
    rfl
  encoded ht := by simp [Memory.table?_eq_none, Memory.empty] at ht
  distinct q := by
    have hnames : S.files.names (S.place ++ q) = [] := by
      refine List.eq_nil_iff_forall_not_mem.2 fun n hn => ?_
      rw [FileTree.mem_names, List.append_assoc, S.empty _ (by simp)] at hn
      cases hn
    rw [hnames]
    exact List.nodup_nil

namespace Holds

variable (h : S.Holds w m)

include h

/-! ### Finding databases and tables -/

theorem kept : FileTree.Kept S.files w.files := h.outside.kept S.empty

theorem locate_root : w.files.locate w.session.root = .ok S.place := by
  rw [h.root]
  exact FileTree.locate_of_kept h.kept S.locate_root

theorem directory : w.files.at? S.place = some .directory := h.kept.directory _ S.directory

theorem locate_database (hd : d ∈ S.databases) (hname : IsName d) :
    w.files.locate (w.session.root.join d) = .ok (S.place ++ [d]) := by
  obtain ⟨hsize, hpath⟩ := S.room.database d hd
  rw [← h.outside.encoding] at hsize hpath
  rw [← h.root] at hpath
  exact FileTree.locate_join h.locate_root h.directory hname.isPart hsize hpath

theorem locate_table (hd : d ∈ m.databases) (hdname : IsName d) (hn : n ∈ S.tables)
    (hname : IsName n) : w.files.locate (S.tablePath d n) =
      .ok (S.place ++ [d, n ++ tableSuffix]) := by
  have hplace := h.locate_database (h.known d hd) hdname
  have hdirectory : w.files.at? (S.place ++ [d]) = some .directory := by rw [h.database, if_pos hd]
  obtain ⟨hsize, hpath⟩ := S.room.table d (h.known d hd) n hn
  rw [← h.outside.encoding] at hsize hpath
  rw [h.root] at hplace
  have hlocate := FileTree.locate_join hplace hdirectory hname.isPart_file hsize hpath
  rwa [List.append_assoc] at hlocate

theorem isDirectory_database (hd : d ∈ S.databases) (hname : IsName d) :
    w.files.isDirectory (w.session.root.join d) = .ok (decide (d ∈ m.databases)) := by
  rw [FileTree.isDirectory_eq (h.locate_database hd hname), h.database]
  by_cases hmem : d ∈ m.databases <;> simp [hmem]

theorem hasEntry_database (hd : d ∈ S.databases) (hname : IsName d) :
    w.files.hasEntry (w.session.root.join d) = .ok (decide (d ∈ m.databases)) := by
  rw [FileTree.hasEntry_eq (h.locate_database hd hname), h.database]
  by_cases hmem : d ∈ m.databases <;> simp [hmem]

theorem tablePath_eq (hselected : m.selected = some d) (n : String) :
    w.session.tablePath n = .ok (S.tablePath d n) := by
  simp [Session.tablePath, h.selected, hselected, Site.tablePath]

theorem tablePath_eq_error (hselected : m.selected = none) (n : String) :
    w.session.tablePath n = .error (.operation .noDatabaseSelected) := by
  simp [Session.tablePath, h.selected, hselected]

/-! ### Changes of databases -/

theorem useDatabase (d : String) : S.Holds
    { w with session := { w.session with selected := some ⟨d, w.session.root.join d⟩ } }
    { m with selected := some d } :=
  { h with selected := by simp [h.root] }

theorem createDatabase (hd : d ∈ S.databases) (hnot : d ∉ m.databases) : S.Holds
    ⟨{ w.session with selected := some ⟨d, w.session.root.join d⟩ },
      w.files.put (S.place ++ [d]) .directory⟩
    ⟨m.databases.insert d ∅, some d⟩ where
  root := h.root
  selected := by simp [h.root]
  outside := h.outside.trans (SameOutside.put _ (by simp) _)
  known e he := by
    rcases (AList.mem_insert _).1 he with rfl | he
    · exact hd
    · exact h.known e he
  database e := by
    by_cases he : e = d
    · subst he
      rw [FileTree.at?_put_self _ (by simp)]
      simp
    · rw [FileTree.at?_put_of_ne _ (by simpa using he), h.database]
      simp [he]
  table e k := by
    rw [FileTree.at?_put_of_ne _ (by simp), Memory.table?_insert_empty hnot, h.table]
  encoded ht := h.encoded (by rwa [Memory.table?_insert_empty hnot] at ht)
  distinct q := FileTree.nodup_names_put (h.distinct q) _

theorem dropDatabase : S.Holds
    ⟨{ w.session with selected := w.session.selected.filter (·.database ≠ d) },
      w.files.remove (S.place ++ [d])⟩
    ⟨m.databases.erase d, m.selected.filter (· ≠ d)⟩ where
  root := h.root
  selected := by
    simp only [h.selected]
    cases m.selected with
    | none => rfl
    | some e => by_cases he : e = d <;> simp [Option.filter, he]
  outside := h.outside.trans (SameOutside.remove _ (by simp))
  known e he := h.known e (AList.mem_erase.1 he).2
  database e := by
    rw [FileTree.at?_remove _ (by simp), h.database]
    by_cases he : e = d
    · simp [he]
    · simp [he, Ne.symm he]
  table e k := by
    rw [FileTree.at?_remove _ (by simp), h.table, Memory.table?_erase]
    by_cases he : e = d
    · simp [he]
    · simp [he, Ne.symm he]
  encoded ht := by
    rw [Memory.table?_erase] at ht
    split at ht
    · cases ht
    · exact h.encoded ht
  distinct q := FileTree.nodup_names_remove (h.distinct q)

/-! ### Changes of tables -/

theorem setTable (hd : d ∈ m.databases) (n : String) {t : Table}
    (ht : t.Encoded S.files.encoding) : S.Holds
    { w with files := w.files.put (S.place ++ [d, n ++ tableSuffix]) (.file (.text t.fileText)) }
    (m.setTable d n t) where
  root := h.root
  selected := h.selected
  outside := h.outside.trans (SameOutside.put _ (by simp) _)
  known e he := h.known e ((Memory.mem_setTable hd).1 he)
  database e := by
    rw [FileTree.at?_put_of_ne _ (by simp), h.database]
    simp only [Memory.mem_setTable hd]
  table e k := by
    rw [Memory.table?_setTable]
    by_cases heq : e = d ∧ k = n
    · obtain ⟨rfl, rfl⟩ := heq
      rw [FileTree.at?_put_self _ (by simp)]
      simp
    · rw [FileTree.at?_put_of_ne _ (by simpa using heq), if_neg heq, h.table]
  encoded hu := by
    rw [Memory.table?_setTable] at hu
    split at hu
    · cases hu
      exact ht
    · exact h.encoded hu
  distinct q := FileTree.nodup_names_put (h.distinct q) _

theorem eraseTable (hd : d ∈ m.databases) (n : String) : S.Holds
    { w with files := w.files.erase (S.place ++ [d, n ++ tableSuffix]) } (m.eraseTable d n) where
  root := h.root
  selected := h.selected
  outside := h.outside.trans (SameOutside.erase _ (by simp))
  known e he := h.known e ((Memory.mem_eraseTable hd).1 he)
  database e := by
    rw [FileTree.at?_erase_of_ne _ (by simp), h.database]
    simp only [Memory.mem_eraseTable hd]
  table e k := by
    rw [Memory.table?_eraseTable]
    by_cases heq : e = d ∧ k = n
    · obtain ⟨rfl, rfl⟩ := heq
      rw [FileTree.at?_erase_self _ (by simp)]
      simp
    · rw [FileTree.at?_erase_of_ne _ (by simpa using heq), if_neg heq, h.table]
  encoded ht := by
    rw [Memory.table?_eraseTable] at ht
    split at ht
    · cases ht
    · exact h.encoded ht
  distinct q := FileTree.nodup_names_erase (h.distinct q)

end Holds

namespace Holds

variable (h : S.Holds w m)

include h

theorem mem_names_iff : d ∈ w.files.names S.place ↔ d ∈ m.databases := by
  rw [FileTree.mem_names, h.database]
  by_cases hd : d ∈ m.databases <;> simp [hd]

theorem run_databases (hm : m.Sound) : Operation.databases.run w = .ok m.databaseNames w := by
  have hlist := FileTree.list_eq h.locate_root h.directory
  have hnames : ∀ d ∈ w.files.names S.place,
      w.files.isDirectory (w.session.root.join d) = .ok true := by
    intro d hd
    have hmem := h.mem_names_iff.1 hd
    rw [h.isDirectory_database (h.known d hmem) (hm.isName_database d hmem), decide_eq_true hmem]
  have hperm : (w.files.names S.place).Perm m.databases.keys := by
    refine (List.perm_ext_iff_of_nodup ?_ (AList.keys_nodup _)).2 fun d => ?_
    · simpa using h.distinct []
    · rw [← AList.mem_keys, h.mem_names_iff]
  have hrun := Operation.run_directories (p := fun _ => true) hnames
  rw [List.filter_true, FileTree.names] at hrun
  rw [Operation.run_databases, hlist]
  dsimp only
  rw [hrun]
  exact congrArg (EStateM.Result.ok · w) (mergeSort_eq_of_perm hperm)

/-- A file in the directory of a database is named for the table that it belongs to. -/
theorem tableOfFile?_eq_some_iff (hm : m.Sound) {file : String} {e : Entry}
    (hmem : (file, e) ∈ w.files.children (S.place ++ [d])) :
    Operation.tableOfFile? file = some n ↔ file = n ++ tableSuffix := by
  have hentry := FileTree.mem_names.1 (List.mem_map_of_mem hmem)
  rw [List.append_assoc, List.singleton_append] at hentry
  have hname : ∀ {k}, file = k ++ tableSuffix → k ≠ "" := by
    rintro k rfl
    rw [h.table, Option.isSome_map] at hentry
    obtain ⟨t, ht⟩ := Option.isSome_iff_exists.1 hentry
    exact (hm.isName_table ht).ne_empty
  constructor
  · intro hfile
    obtain ⟨k, rfl⟩ := Operation.exists_of_tableOfFile? hfile
    rw [Operation.tableOfFile?_append (hname rfl)] at hfile
    rw [Option.some.inj hfile]
  · rintro rfl
    exact Operation.tableOfFile?_append (hname rfl)

theorem mem_tables_iff (hm : m.Sound) :
    n ∈ ((w.files.children (S.place ++ [d])).filterMap fun (file, _) =>
      Operation.tableOfFile? file) ↔ n ∈ (m.tablesOf d).keys := by
  rw [← AList.mem_keys, ← AList.lookup_isSome, List.mem_filterMap]
  change _ ↔ (m.table? d n).isSome
  have hentry : (n ++ tableSuffix) ∈ w.files.names (S.place ++ [d]) ↔ (m.table? d n).isSome := by
    rw [FileTree.mem_names, List.append_assoc, List.singleton_append, h.table, Option.isSome_map]
  rw [← hentry, FileTree.names, List.mem_map]
  constructor
  · rintro ⟨⟨file, e⟩, hmem, hfile⟩
    exact ⟨(file, e), hmem, (h.tableOfFile?_eq_some_iff hm hmem).1 hfile⟩
  · rintro ⟨⟨file, e⟩, hmem, hfile⟩
    exact ⟨(file, e), hmem, (h.tableOfFile?_eq_some_iff hm hmem).2 hfile⟩

/-- No two files in the directory of a database belong to one table. -/
theorem nodup_tables (hm : m.Sound) : ((w.files.children (S.place ++ [d])).filterMap
    fun (file, _) => Operation.tableOfFile? file).Nodup := by
  refine List.pairwise_filterMap.2 ?_
  have hdistinct : (w.files.children (S.place ++ [d])).Pairwise fun x y => x.1 ≠ y.1 :=
    List.pairwise_map.1 (h.distinct [d])
  refine hdistinct.imp_of_mem ?_
  rintro ⟨file, e⟩ ⟨file', e'⟩ hx hy hne n hn n' hn' rfl
  rw [h.tableOfFile?_eq_some_iff hm hx] at hn
  rw [h.tableOfFile?_eq_some_iff hm hy] at hn'
  exact hne (hn.trans hn'.symm)

theorem run_tables (hm : m.Sound) : Operation.tables.run w = .ok m.tableNames w := by
  unfold Operation.tables Memory.tableNames
  rw [EStateM.run_bind, EStateM.run_get]
  dsimp only
  cases hselected : m.selected with
  | none =>
    rw [h.selected, hselected]
    rfl
  | some d =>
    have hmem := hm.mem_of_selected d hselected
    have hd := h.known d hmem
    have hname := hm.isName_database d hmem
    have hdirectory : w.files.at? (S.place ++ [d]) = some .directory := by
      rw [h.database, if_pos hmem]
    have hfound := h.isDirectory_database hd hname
    have hlist := FileTree.list_eq (h.locate_database hd hname) hdirectory
    have hperm := (List.perm_ext_iff_of_nodup (h.nodup_tables hm) (AList.keys_nodup _)).2
      fun n => h.mem_tables_iff hm (d := d) (n := n)
    rw [h.root] at hfound hlist
    rw [h.selected, hselected]
    simp only [Option.map_some, EStateM.run_bind, Operation.run_query, hfound, hlist,
      decide_eq_true hmem, mapError_ok, Operation.settle_ok, EStateM.run_pure, if_true]
    rw [mergeSort_eq_of_perm hperm]

end Holds

end Site

end Tabula
