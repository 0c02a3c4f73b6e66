import Tabula.Proofs.Session.Encoded
import Tabula.Proofs.Session.Response

/-!
# Tables through their files

A table can go through its file if its names and cells are plain and can be encoded, and each of its
rows has as many cells as there are columns (`Table.Rectangular`). Its rows need not be aligned:
what is read back has the same cells under the names of the header. Every table that is read is of
this kind, so it is a fixed point of writing and reading (`Operation.load_store`).
-/

namespace Tabula

open Text (Plain)

namespace Table

/-- Plain names and cells, and as many cells in each row as there are columns. -/
structure Rectangular (t : Table) : Prop where
  headers_ne_nil : t.headers ≠ []
  plain_headers : ∀ h ∈ t.headers, Plain h
  length_values : ∀ r ∈ t.rows, r.values.length = t.headers.length
  plain_values : ∀ r ∈ t.rows, ∀ v ∈ r.values, Plain v

/-- The table of this name with the same cells, those of each row under the names of the header. -/
def relabelled (t : Table) (name : String) : Table :=
  ⟨name, t.headers, t.rows.map fun r => ⟨t.headers.zip r.values⟩⟩

variable {t : Table}

theorem Storable.rectangular (ht : t.Storable) : t.Rectangular where
  headers_ne_nil := ht.headers_ne_nil
  plain_headers := ht.plain_headers
  length_values := by
    intro r hr
    rw [Row.length_values, ht.aligned r hr]
  plain_values := ht.plain_values

theorem Rectangular.values_relabelled (ht : t.Rectangular) (name : String) :
    (t.relabelled name).rows.map Row.values = t.rows.map Row.values := by
  simp only [relabelled, List.map_map]
  refine List.map_congr_left ?_
  intro r hr
  exact Row.values_zip (ht.length_values r hr).symm

/-- A file has the cells of a table, not the names that its rows carry. -/
theorem Rectangular.fileText_relabelled (ht : t.Rectangular) (name : String) :
    (t.relabelled name).fileText = t.fileText := by
  have hlines : (t.relabelled name).rows.map (fun r => line r.values) =
      t.rows.map fun r => line r.values := by
    simpa [List.map_map, Function.comp_def] using
      congrArg (List.map line) (ht.values_relabelled name)
  rw [fileText, fileText, text, text, hlines]
  rfl

theorem Rectangular.storable_relabelled (ht : t.Rectangular) (name : String) :
    (t.relabelled name).Storable where
  headers_ne_nil := ht.headers_ne_nil
  plain_headers := ht.plain_headers
  aligned := by
    intro s hs
    obtain ⟨r, hr, rfl⟩ := List.mem_map.1 hs
    exact Row.headers_zip (ht.length_values r hr).symm
  plain_values := by
    intro s hs
    obtain ⟨r, hr, rfl⟩ := List.mem_map.1 hs
    rw [Row.values_zip (ht.length_values r hr).symm]
    exact ht.plain_values r hr

end Table

namespace Operation

variable {t t' : Table} {w w' w'' : World} {name : String} {path : Path} {a b : Answer}

theorem run_store_eq (t : Table) (path : Path) (w : World) : (store t path).run w =
    match w.files.writeFile path t.fileText with
    | (.ok _, files) => .ok () { w with files := files }
    | (.error e, files) => .error
      (if e.refusal.isOfSystem then .operation (.unwritable t.name e) else .file e)
      { w with files := files } := by
  have hrun := run_store t path () w
  rwa [bind_pure] at hrun

theorem store_eq_ok_iff : (store t path).run w = .ok () w' ↔
    ∃ files, w.files.writeFile path t.fileText = (.ok (), files) ∧
      w' = { w with files := files } := by
  rw [run_store_eq]
  obtain ⟨outcome, files⟩ := w.files.writeFile path t.fileText
  cases outcome with
  | error e => simp
  | ok _ => simp [eq_comm]

theorem run_store_eq_ok_iff :
    (do store t path; return b : Operation Answer).run w = .ok a w' ↔
      b = a ∧ (store t path).run w = .ok () w' := by
  rw [EStateM.run_bind]
  cases (store t path).run w with
  | ok u after => simp
  | error e after => simp

/-- What is stored can be encoded. -/
theorem encoded_of_store (h : (store t path).run w = .ok () w') : t.Encoded w.files.encoding := by
  obtain ⟨files, hwrite, -⟩ := store_eq_ok_iff.1 h
  obtain ⟨-, -, -, hencodes, -⟩ := FileTree.exists_place_of_writeFile hwrite
  exact Table.encodes_fileText_iff.1 hencodes

/-- What is stored takes the place of what was stored there before. -/
theorem store_of_store (h : (store t path).run w = .ok () w') :
    (store t' path).run w' = .ok () w'' ↔ (store t' path).run w = .ok () w'' := by
  obtain ⟨files, hwrite, rfl⟩ := store_eq_ok_iff.1 h
  rw [store_eq_ok_iff, store_eq_ok_iff, FileTree.writeFile_eq_of_writeFile hwrite]

theorem exists_store_of_table (ht : w.files.table name path = .ok t)
    (ht' : t'.Encoded w.files.encoding) : ∃ w', (store t' path).run w = .ok () w' := by
  obtain ⟨files, hwrite⟩ := FileTree.exists_writeFile_of_isFile (FileTree.isFile_of_table ht)
    (Table.encodes_fileText_iff.2 ht')
  exact ⟨_, store_eq_ok_iff.2 ⟨files, hwrite, rfl⟩⟩

/-- A table that is stored is there under its name. -/
theorem table_of_store (hpath : w.session.tablePath name = .ok path) (ht : t.Storable)
    (hname : t.name = name) (h : (store t path).run w = .ok () w') :
    w'.session.tablePath name = .ok path ∧ w'.files.table name path = .ok t := by
  obtain ⟨files, hwrite, rfl⟩ := store_eq_ok_iff.1 h
  exact ⟨hpath, hname ▸ FileTree.table_of_writeFile ht hwrite⟩

theorem load_eq_ok_iff :
    (load name path).run w = .ok t w' ↔ w.files.table name path = .ok t ∧ w' = w := by
  rw [run_load]
  exact run_settle_eq_ok_iff

/-- What is read after a table has been written, under any name. -/
theorem load_of_store (ht : t.Rectangular) (h : (store t path).run w = .ok () w') :
    (load name path).run w' = .ok (t.relabelled name) w' := by
  obtain ⟨files, hwrite, rfl⟩ := store_eq_ok_iff.1 h
  rw [← ht.fileText_relabelled name] at hwrite
  exact load_eq_ok_iff.2 ⟨FileTree.table_of_writeFile (ht.storable_relabelled name) hwrite, rfl⟩

/-- A table that can be encoded can be written where there is no directory, and is read back with
the same header and the same cells. What is read from a file is always such a table; it can be
written back, is then read as it was, and another write changes nothing. -/
theorem load_store (w : World) (name : String) (path : Path) :
    (∀ t place, t.Rectangular → t.Encoded w.files.encoding → w.files.locate path = .ok place →
      w.files.at? place ≠ some .directory → ∃ w' t', (store t path).run w = .ok () w' ∧
        (load name path).run w' = .ok t' w' ∧ t'.headers = t.headers ∧
        t'.rows.map Row.values = t.rows.map Row.values) ∧
    ∀ t w₁, (load name path).run w = .ok t w₁ → t.Rectangular ∧ t.Encoded w.files.encoding ∧
      ∃ w', (store t path).run w₁ = .ok () w' ∧ (load name path).run w' = .ok t w' ∧
        (store t path).run w' = .ok () w' := by
  constructor
  · intro t place ht hencoded hlocate hplace
    have hwrite := FileTree.writeFile_eq hlocate (Table.encodes_fileText_iff.2 hencoded) hplace
    have hstore := store_eq_ok_iff.2 ⟨_, hwrite, rfl⟩
    exact ⟨_, _, hstore, load_of_store ht hstore, rfl, ht.values_relabelled name⟩
  · intro t w₁ hload
    obtain ⟨htable, rfl⟩ := load_eq_ok_iff.1 hload
    have hencoded := FileTree.encoded_of_table htable
    obtain ⟨ht, rfl⟩ := FileTree.storable_of_table htable
    obtain ⟨files, hwrite⟩ := FileTree.exists_writeFile_of_isFile (FileTree.isFile_of_table htable)
      (Table.encodes_fileText_iff.2 hencoded)
    refine ⟨ht.rectangular, hencoded, { w₁ with files := files }, ?_, ?_, ?_⟩
    · exact store_eq_ok_iff.2 ⟨files, hwrite, rfl⟩
    · exact load_eq_ok_iff.2 ⟨FileTree.table_of_writeFile ht hwrite, rfl⟩
    · exact store_eq_ok_iff.2 ⟨files, FileTree.writeFile_writeFile hwrite, rfl⟩

/-- A table with an empty name, a name that stands twice, empty cells, and a row that carries other
names; and a file with a line that lacks its last cell. -/
theorem load_store_repeated :
    (∃ w' t', (store ⟨"t", ["", "a", "a"], [⟨[("x", "1"), ("y", ""), ("z", "")]⟩]⟩
        ⟨0, ["r", "d", "t.tab"]⟩).run (.sample "") = .ok () w' ∧
      (load "t" ⟨0, ["r", "d", "t.tab"]⟩).run w' = .ok t' w' ∧ t'.headers = ["", "a", "a"] ∧
      t'.rows.map Row.values = [["1", "", ""]]) ∧
    ∃ t w', (load "t" ⟨0, ["r", "d", "t.tab"]⟩).run (.sample "id\ta\n1\n") =
        .ok t (.sample "id\ta\n1\n") ∧
      t.rows.map Row.values = [["1", ""]] ∧
      (store t ⟨0, ["r", "d", "t.tab"]⟩).run (.sample "id\ta\n1\n") = .ok () w' ∧
      (load "t" ⟨0, ["r", "d", "t.tab"]⟩).run w' = .ok t w' := by
  constructor
  · have hrectangular : Table.Rectangular
        ⟨"t", ["", "a", "a"], [⟨[("x", "1"), ("y", ""), ("z", "")]⟩]⟩ :=
      ⟨by decide, by decide, by decide, by decide⟩
    have hencoded : Table.Encoded
        ⟨"t", ["", "a", "a"], [⟨[("x", "1"), ("y", ""), ("z", "")]⟩]⟩ .utf8 :=
      ⟨fun _ _ => Text.Encoding.encodes_utf8 _, fun _ _ _ _ => Text.Encoding.encodes_utf8 _⟩
    exact (load_store (.sample "") "t" _).1 _ _ hrectangular hencoded
      (World.locate_sampleWith _ "") (by rw [World.sample, World.at?_sampleWith]; simp)
  · have hread : Table.read "t" "id\ta\n1\n" =
        .ok ⟨"t", ["id", "a"], [⟨[("id", "1"), ("a", "")]⟩]⟩ := rfl
    have hload : (load "t" ⟨0, ["r", "d", "t.tab"]⟩).run (.sample "id\ta\n1\n") =
        .ok ⟨"t", ["id", "a"], [⟨[("id", "1"), ("a", "")]⟩]⟩ (.sample "id\ta\n1\n") :=
      load_eq_ok_iff.2 ⟨by rw [World.fileTable_sample, hread]; rfl, rfl⟩
    obtain ⟨-, -, w', hstore, hagain, -⟩ := (load_store _ "t" _).2 _ _ hload
    exact ⟨_, w', hload, rfl, hstore, hagain⟩

/-- A table with an undecoded byte in a cell does not go through its file: nothing is written, and
an empty table is read back. -/
theorem load_store_undecoded :
    Table.Rectangular ⟨"t", ["id", "a"], [⟨[("id", "1"), ("a", "\uf8ff")]⟩]⟩ ∧
    (store ⟨"t", ["id", "a"], [⟨[("id", "1"), ("a", "\uf8ff")]⟩]⟩ ⟨0, ["r", "d", "t.tab"]⟩).run
        (.sampleWith .lastByte "id\ta\n") =
      .error (.file ⟨.unencodable ⟨7, 0xff, 1⟩, ⟨0, ["r", "d", "t.tab"]⟩, .lastByte⟩)
        (.sampleWith .lastByte "") ∧
    (load "t" ⟨0, ["r", "d", "t.tab"]⟩).run (.sampleWith .lastByte "") =
      .ok ⟨"t", ["id"], []⟩ (.sampleWith .lastByte "") := by
  have htext : (⟨"t", ["id", "a"], [⟨[("id", "1"), ("a", "\uf8ff")]⟩]⟩ : Table).fileText =
      "id\ta\n1\t\uf8ff\n" := rfl
  have hfault : Text.Encoding.lastByte.fault? "id\ta\n1\t\uf8ff\n" = some ⟨7, 0xff, 1⟩ := by decide
  refine ⟨⟨by decide, by decide, by decide, by decide⟩, ?_, load_eq_ok_iff.2 ⟨?_, rfl⟩⟩
  · rw [run_store_eq, htext, World.writeFile_sampleWith, hfault]
    rfl
  · rw [World.fileTable_sampleWith (Text.Encoding.encodes_empty _)]
    rfl

end Operation

end Tabula
