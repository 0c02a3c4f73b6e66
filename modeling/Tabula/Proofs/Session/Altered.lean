import Tabula.Proofs.Session.Encoded
import Tabula.Proofs.Session.Validated
import Tabula.Proofs.Table.Column
import Tabula.Proofs.Table.RoundTrip

/-!
# Alterations of a table

An alteration writes the table with one column more or one less, and moves no cell between the
others: what is read back has the rows in their places, with the cells that they had
(`Table.Added`, `Table.Dropped`). To add a column and drop it again comes to loading the table and
storing it (`alterTable_moves_nothing`).
-/

namespace Tabula

open Operation
open Text (Plain)

namespace Table

/-- What is read back of a table to which a column was added. -/
structure Added (t : Table) (column : String) (t' : Table) : Prop where
  headers_eq : t'.headers = t.headers ++ [column]
  length_rows : t'.rows.length = t.rows.length
  column_eq : ∀ other ∈ t.headers, t'.column other = t.column other
  column_new : t'.column column = List.replicate t.rows.length ""

/-- What is read back of a table that has lost a column. If it had no other, its rows are kept under
a column without a name. -/
structure Dropped (t : Table) (column : String) (t' : Table) : Prop where
  headers_eq : t'.headers =
    if t.headers = [column] then [""] else t.headers.filter (· ≠ column)
  length_rows : t'.rows.length = t.rows.length
  column_eq : ∀ other ∈ t.headers, other ≠ column → t'.column other = t.column other

variable {t : Table} {column : String}

theorem added_extended (ht : t.Aligned) (h : column ∉ t.headers) :
    t.Added column (t.extended column) where
  headers_eq := rfl
  length_rows := List.length_map _
  column_eq _ hother := column_extended_of_mem ht hother
  column_new := column_extended_self ht h

theorem dropped_remainder (hnodup : t.headers.Nodup) : t.Dropped column (t.remainder column) := by
  by_cases honly : t.headers = [column]
  · have hremainder : t.remainder column = t.nameless := if_pos honly
    rw [hremainder]
    refine ⟨(if_pos honly).symm, List.length_map _, fun other hother hne => ?_⟩
    rw [honly, List.mem_singleton] at hother
    exact absurd hother hne
  · have hremainder : t.remainder column = t.reduced column := if_neg honly
    rw [hremainder]
    refine ⟨?_, List.length_map _, fun other _ hne => column_reduced_of_ne hne⟩
    rw [if_neg honly, headers_reduced hnodup]

end Table

namespace Operation

variable {w w' : World} {name : String} {path : Path} {t : Table} {a : Answer}

/-- A change of a table goes well if the table can be changed and is then stored. -/
theorem run_changeTable_eq_ok_iff {f : Table → Except Failure (Table × Answer)}
    (hpath : w.session.tablePath name = .ok path) (ht : w.files.table name path = .ok t) :
    (changeTable name f).run w = .ok a w' ↔
      ∃ t', f t = .ok (t', a) ∧ (store t' path).run w = .ok () w' := by
  constructor
  · intro h
    obtain ⟨_, _, t', files, hpath', ht', hf, hwrite, rfl⟩ := exists_of_changeTable_ok h
    cases hpath.symm.trans hpath'
    cases ht.symm.trans ht'
    exact ⟨t', hf, store_eq_ok_iff.2 ⟨files, hwrite, rfl⟩⟩
  · rintro ⟨t', hf, hstore⟩
    rw [run_changeTable_of_eq_ok hpath ht hf]
    exact run_store_eq_ok_iff.2 ⟨rfl, hstore⟩

end Operation

variable {w w' w₁ w₂ : World} {name column : String} {path : Path} {t : Table} {a : Answer}

theorem run_add_eq_ok_iff (hpath : w.session.tablePath name = .ok path)
    (ht : w.files.table name path = .ok t) :
    (Command.alterTable name .add column).run.run w = .ok a w' ↔
      column ∉ t.headers ∧ a = {} ∧ (store (t.extended column) path).run w = .ok () w' := by
  have haligned := (FileTree.storable_of_table ht).1.aligned
  rw [Command.run, alterTable_eq, run_changeTable_eq_ok_iff hpath ht]
  constructor
  · rintro ⟨t', haltered, hstore⟩
    rcases (Table.altered_eq_ok_iff haligned).1 haltered with ⟨-, hcolumn, rfl, ha⟩ | ⟨hdrop, -⟩
    · exact ⟨hcolumn, ha, hstore⟩
    · cases hdrop
  · rintro ⟨hcolumn, ha, hstore⟩
    exact ⟨_, (Table.altered_eq_ok_iff haligned).2 (.inl ⟨rfl, hcolumn, rfl, ha⟩), hstore⟩

/-- What is stored is read back as the remainder. -/
theorem run_drop_eq_ok_iff (hpath : w.session.tablePath name = .ok path)
    (ht : w.files.table name path = .ok t) :
    (Command.alterTable name .drop column).run.run w = .ok a w' ↔
      (column ∈ t.headers ∧ column ≠ Table.idColumn) ∧ a = {} ∧
        (store (t.remainder column) path).run w = .ok () w' := by
  have haligned := (FileTree.storable_of_table ht).1.aligned
  have htext : (store (t.remainder column) path).run w = .ok () w' ↔
      (store (t.reduced column) path).run w = .ok () w' := by
    rw [store_eq_ok_iff, store_eq_ok_iff, Table.fileText_remainder haligned]
  rw [Command.run, alterTable_eq, run_changeTable_eq_ok_iff hpath ht, htext]
  constructor
  · rintro ⟨t', haltered, hstore⟩
    rcases (Table.altered_eq_ok_iff haligned).1 haltered with ⟨hadd, -⟩ | ⟨-, hcolumn, rfl, ha⟩
    · cases hadd
    · exact ⟨hcolumn, ha, hstore⟩
  · rintro ⟨hcolumn, ha, hstore⟩
    exact ⟨_, (Table.altered_eq_ok_iff haligned).2 (.inr ⟨rfl, hcolumn, rfl, ha⟩), hstore⟩

theorem exists_run_add_iff (hpath : w.session.tablePath name = .ok path)
    (ht : w.files.table name path = .ok t) :
    (∃ a w', (Command.alterTable name .add column).run.run w = .ok a w') ↔
      column ∉ t.headers ∧ w.files.encoding.Encodes column := by
  constructor
  · rintro ⟨a, w', hrun⟩
    obtain ⟨hcolumn, -, hstore⟩ := (run_add_eq_ok_iff hpath ht).1 hrun
    exact ⟨hcolumn, (encoded_of_store hstore).headers column (by simp [Table.extended])⟩
  · rintro ⟨hcolumn, hencodes⟩
    obtain ⟨w', hstore⟩ :=
      exists_store_of_table ht ((FileTree.encoded_of_table ht).extended hencodes)
    exact ⟨_, w', (run_add_eq_ok_iff hpath ht).2 ⟨hcolumn, rfl, hstore⟩⟩

theorem exists_run_drop_iff (hpath : w.session.tablePath name = .ok path)
    (ht : w.files.table name path = .ok t) :
    (∃ a w', (Command.alterTable name .drop column).run.run w = .ok a w') ↔
      column ∈ t.headers ∧ column ≠ Table.idColumn := by
  constructor
  · rintro ⟨a, w', hrun⟩
    exact ((run_drop_eq_ok_iff hpath ht).1 hrun).1
  · intro hcolumn
    have haligned := (FileTree.storable_of_table ht).1.aligned
    obtain ⟨w', hstore⟩ :=
      exists_store_of_table ht ((FileTree.encoded_of_table ht).remainder haligned column)
    exact ⟨_, w', (run_drop_eq_ok_iff hpath ht).2 ⟨hcolumn, rfl, hstore⟩⟩

/-- A drop that undoes an addition stores the table that the addition has loaded. -/
theorem load_store_of_add_of_drop {b : Answer} (hplain : Plain column)
    (hpath : w.session.tablePath name = .ok path) (ht : w.files.table name path = .ok t)
    (hadd : (Command.alterTable name .add column).run.run w = .ok a w₁)
    (hdrop : (Command.alterTable name .drop column).run.run w₁ = .ok b w₂) :
    (do store (← load name path) path : Operation Unit).run w = .ok () w₂ := by
  obtain ⟨hstorable, hname⟩ := FileTree.storable_of_table ht
  obtain ⟨hcolumn, -, hstore₁⟩ := (run_add_eq_ok_iff hpath ht).1 hadd
  obtain ⟨hpath₁, ht₁⟩ := table_of_store hpath (hstorable.extended hplain) hname hstore₁
  obtain ⟨-, -, hstore₂⟩ := (run_drop_eq_ok_iff hpath₁ ht₁).1 hdrop
  rw [Table.remainder_extended hstorable hcolumn, store_of_store hstore₁] at hstore₂
  rw [EStateM.run_bind, load_eq_ok_iff.2 ⟨ht, rfl⟩]
  exact hstore₂

/-- An alteration leaves the rows in their places and every other column in its order with the
cells that it had. A column can be added unless it is there or its name cannot be encoded. An added
column is last and empty. It can be dropped unless it is `id`, and its drop leaves the file that
loading the table and storing it would have left. -/
theorem alterTable_moves_nothing (ht : w.table name = .ok t) (hnodup : t.headers.Nodup)
    (hplain : Plain column) :
    ((∃ a w', (Command.alterTable name .add column).run.run w = .ok a w') ↔
      column ∉ t.headers ∧ w.files.encoding.Encodes column) ∧
    (∀ a w', (Command.alterTable name .add column).run.run w = .ok a w' →
      ∃ t', w'.table name = .ok t' ∧ t.Added column t') ∧
    ((∃ a w', (Command.alterTable name .drop column).run.run w = .ok a w') ↔
      column ∈ t.headers ∧ column ≠ Table.idColumn) ∧
    (∀ a w', (Command.alterTable name .drop column).run.run w = .ok a w' →
      ∃ t', w'.table name = .ok t' ∧ t.Dropped column t') ∧
    ∀ a w₁, (Command.alterTable name .add column).run.run w = .ok a w₁ →
      ((∃ b w₂, (Command.alterTable name .drop column).run.run w₁ = .ok b w₂) ↔
        column ≠ Table.idColumn) ∧
      ∀ b w₂, (Command.alterTable name .drop column).run.run w₁ = .ok b w₂ →
        ∃ path, w.session.tablePath name = .ok path ∧
          (do store (← load name path) path : Operation Unit).run w = .ok () w₂ := by
  obtain ⟨path, hpath, hfile⟩ := World.exists_tablePath ht
  obtain ⟨hstorable, hname⟩ := FileTree.storable_of_table hfile
  have hextended := hstorable.extended hplain
  have hremainder : (t.remainder column).Storable := Table.storable_remainder hstorable hnodup
  refine ⟨exists_run_add_iff hpath hfile, ?_, exists_run_drop_iff hpath hfile, ?_, ?_⟩
  · intro a w' hadd
    obtain ⟨hcolumn, -, hstore⟩ := (run_add_eq_ok_iff hpath hfile).1 hadd
    have hread := table_of_store hpath hextended hname hstore
    exact ⟨_, bind_eq_ok_iff.2 ⟨path, hread⟩, Table.added_extended hstorable.aligned hcolumn⟩
  · intro a w' hdrop
    obtain ⟨-, -, hstore⟩ := (run_drop_eq_ok_iff hpath hfile).1 hdrop
    have hread := table_of_store hpath hremainder
      ((Table.name_remainder t column).trans hname) hstore
    exact ⟨_, bind_eq_ok_iff.2 ⟨path, hread⟩, Table.dropped_remainder hnodup⟩
  · intro a w₁ hadd
    obtain ⟨-, -, hstore⟩ := (run_add_eq_ok_iff hpath hfile).1 hadd
    obtain ⟨hpath₁, hfile₁⟩ := table_of_store hpath hextended hname hstore
    have hthere : column ∈ (t.extended column).headers :=
      List.mem_append_right _ (List.mem_singleton_self column)
    refine ⟨?_, fun b w₂ hdrop => ⟨path, hpath, ?_⟩⟩
    · rw [exists_run_drop_iff hpath₁ hfile₁, and_iff_right hthere]
    · exact load_store_of_add_of_drop hplain hpath hfile hadd hdrop

/-- A table with a line that lacks its last cell. It gets a column and loses it again; or it loses
the column of the cell that the line lacks. -/
theorem alterTable_moves_nothing_short :
    ∃ a w₁ t₁ b w₂ c w' t',
      (Command.alterTable "t" .add "c").run.run (.sample "id\ta\tb\n1\tx\n2\ty\tz\n") =
        .ok a w₁ ∧
      w₁.table "t" = .ok t₁ ∧ t₁.headers = ["id", "a", "b", "c"] ∧
      t₁.column "b" = ["", "z"] ∧ t₁.column "c" = ["", ""] ∧
      (Command.alterTable "t" .drop "c").run.run w₁ = .ok b w₂ ∧
      w₂ = .sample "id\ta\tb\n1\tx\t\n2\ty\tz\n" ∧
      (Command.alterTable "t" .drop "b").run.run (.sample "id\ta\tb\n1\tx\n2\ty\tz\n") =
        .ok c w' ∧
      w'.table "t" = .ok t' ∧ t'.headers = ["id", "a"] ∧ t'.column "a" = ["x", "y"] := by
  let t : Table := ⟨"t", ["id", "a", "b"], [⟨[("id", "1"), ("a", "x"), ("b", "")]⟩,
    ⟨[("id", "2"), ("a", "y"), ("b", "z")]⟩]⟩
  have hread : Table.read "t" "id\ta\tb\n1\tx\n2\ty\tz\n" = .ok t := rfl
  have hfile : (World.sample "id\ta\tb\n1\tx\n2\ty\tz\n").files.table "t"
      ⟨0, ["r", "d", "t.tab"]⟩ = .ok t := by
    rw [World.fileTable_sample, hread]
    rfl
  have ht : (World.sample "id\ta\tb\n1\tx\n2\ty\tz\n").table "t" = .ok t :=
    bind_eq_ok_iff.2 ⟨_, World.tablePath_sample _, hfile⟩
  have hnodup : t.headers.Nodup := by decide
  have hc : Plain "c" := by decide
  have hb : Plain "b" := by decide
  obtain ⟨hadd, hadded, -, -, hback⟩ := alterTable_moves_nothing ht hnodup hc
  obtain ⟨-, -, hdrop, hdropped, -⟩ := alterTable_moves_nothing ht hnodup hb
  obtain ⟨a, w₁, hrun⟩ := hadd.2 ⟨by decide, Text.Encoding.encodes_utf8 _⟩
  obtain ⟨t₁, ht₁, hcells⟩ := hadded a w₁ hrun
  obtain ⟨hagain, hstored⟩ := hback a w₁ hrun
  obtain ⟨b, w₂, hrun₂⟩ := hagain.2 (by decide)
  obtain ⟨c, w', hrun'⟩ := hdrop.2 (by decide)
  obtain ⟨t', ht', hothers⟩ := hdropped c w' hrun'
  have hw₂ : w₂ = .sample "id\ta\tb\n1\tx\t\n2\ty\tz\n" := by
    obtain ⟨path, hpath, hstore⟩ := hstored b w₂ hrun₂
    rw [World.tablePath_sample] at hpath
    cases hpath
    rw [EStateM.run_bind, load_eq_ok_iff.2 ⟨hfile, rfl⟩] at hstore
    obtain ⟨files, hwrite, rfl⟩ := store_eq_ok_iff.1 hstore
    rw [World.writeFile_sample] at hwrite
    cases hwrite
    rfl
  exact ⟨a, w₁, t₁, b, w₂, c, w', t', hrun, ht₁, hcells.headers_eq,
    hcells.column_eq "b" (by decide), hcells.column_new, hrun₂, hw₂, hrun', ht',
    hothers.headers_eq.trans (by decide), hothers.column_eq "a" (by decide) (by decide)⟩

end Tabula
