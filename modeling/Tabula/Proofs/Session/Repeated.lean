import Tabula.Proofs.Condition.Truth
import Tabula.Proofs.Session.Encoded
import Tabula.Proofs.Session.Validated
import Tabula.Proofs.Session.Where
import Tabula.Proofs.Table.Identity
import Tabula.Proofs.Table.RoundTrip

/-!
# Updates and deletions that are repeated

An update gives the rows that a query shows the values that it assigns last to each column, and
leaves the other rows. The rows that its condition picks can be others after it, as the assignments
may change the columns that the condition asks for; but a row that is picked again has been
overwritten already, and one that was left before is left again. So an update that is repeated
leaves the file as it is (`update_twice`), and so does a deletion (`delete_twice`).
-/

namespace Tabula

open Text (Plain)

/-! ### Rows that are overwritten -/

/-- The value that is assigned to a column last. -/
def lastValue? (assignments : List (String × String)) (column : String) : Option String :=
  assignments.reverse.lookup column

theorem lastValue?_cons (a : String × String) (assignments : List (String × String))
    (column : String) : lastValue? (a :: assignments) column =
      (lastValue? assignments column).or (if column = a.1 then some a.2 else none) := by
  obtain ⟨assigned, value⟩ := a
  rw [lastValue?, List.reverse_cons, List.lookup_append, lastValue?]
  congr 1
  by_cases h : column = assigned
  · simp [h]
  · have hb : (column == assigned) = false := by simpa using h
    simp [List.lookup_cons, h, hb]

namespace Row

/-- The row with the last value assigned in each cell that has one. -/
def assigned (r : Row) (assignments : List (String × String)) : Row :=
  ⟨r.cells.map fun (column, v) => (column, (lastValue? assignments column).getD v)⟩

theorem overwrite_eq (r : Row) (assignments : List (String × String)) :
    r.overwrite assignments = r.assigned assignments := by
  induction assignments generalizing r with
  | nil => simp [overwrite, assigned, lastValue?]
  | cons a assignments ih =>
    rw [overwrite, List.foldl_cons]
    refine (ih _).trans ?_
    simp only [assigned, setColumn, List.map_map, Row.mk.injEq]
    refine List.map_congr_left fun x _ => ?_
    simp only [Function.comp_apply, lastValue?_cons]
    cases lastValue? assignments x.1 <;> by_cases hx : x.1 = a.1 <;> simp [hx]

/-- A row that has been overwritten is not changed by the same assignments. -/
theorem assigned_assigned (r : Row) (assignments : List (String × String)) :
    (r.assigned assignments).assigned assignments = r.assigned assignments := by
  simp only [assigned, List.map_map, Row.mk.injEq]
  refine List.map_congr_left fun x _ => ?_
  cases h : lastValue? assignments x.1 <;> simp [h]

end Row

/-! ### Rows that are picked -/

namespace Table

variable {t : Table} {picked : Row → Bool} {assignments : List (String × String)}

/-- Whether a condition is true on a row of the table. -/
def isPicked (t : Table) (condition : String) (r : Row) : Bool :=
  (Condition.read (some condition)).trueOn t.headers r.values

/-- The table with the assignments made in the rows picked. -/
def assigned (t : Table) (picked : Row → Bool) (assignments : List (String × String)) : Table :=
  { t with rows := t.rows.map fun r => if picked r then r.assigned assignments else r }

/-- Changes of rows leave the header, and with it what a condition picks. -/
theorem isPicked_assigned (t : Table) (picked : Row → Bool) (assignments : List (String × String))
    (condition : String) : (t.assigned picked assignments).isPicked condition =
      t.isPicked condition := rfl

theorem isPicked_onlyRows (t : Table) (picked : Row → Bool) (condition : String) :
    (t.onlyRows picked).isPicked condition = t.isPicked condition := rfl

/-- A row that is picked again has been overwritten, and one that was left is left again. -/
theorem assigned_assigned (t : Table) (picked : Row → Bool)
    (assignments : List (String × String)) :
    (t.assigned picked assignments).assigned picked assignments =
      t.assigned picked assignments := by
  simp only [assigned, List.map_map, Table.mk.injEq, true_and]
  refine List.map_congr_left fun r _ => ?_
  simp only [Function.comp_apply]
  by_cases hr : picked r = true
  · rw [if_pos hr]
    split
    · exact Row.assigned_assigned r assignments
    · rfl
  · rw [if_neg hr, if_neg hr]

theorem Storable.assigned (ht : t.Storable) (hplain : ∀ a ∈ assignments, Plain a.2)
    (picked : Row → Bool) : (t.assigned picked assignments).Storable := by
  have hrows : ∀ r ∈ (t.assigned picked assignments).rows,
      r.headers = t.headers ∧ ∀ v ∈ r.values, Plain v := by
    intro r hr
    obtain ⟨s, hs, rfl⟩ := List.mem_map.1 hr
    by_cases hpicked : picked s = true
    · rw [if_pos hpicked, ← Row.overwrite_eq, Row.headers_overwrite]
      refine ⟨ht.aligned s hs, fun v hv => ?_⟩
      rcases Row.mem_values_overwrite hv with hv | hv
      · obtain ⟨a, ha, rfl⟩ := List.mem_map.1 hv
        exact hplain a ha
      · exact ht.plain_values s hs v hv
    · rw [if_neg hpicked]
      exact ⟨ht.aligned s hs, ht.plain_values s hs⟩
  exact ⟨ht.headers_ne_nil, ht.plain_headers, fun r hr => (hrows r hr).1,
    fun r hr => (hrows r hr).2⟩

theorem Encoded.assigned {e : Text.Encoding} (ht : t.Encoded e)
    (hencodes : ∀ a ∈ assignments, e.Encodes a.2) (picked : Row → Bool) :
    (t.assigned picked assignments).Encoded e := by
  have hvalues : ∀ v ∈ assignments.map Prod.snd, e.Encodes v := List.forall_mem_map.2 hencodes
  have hoverwritten := ht.overwritten (t.rows.map picked) hvalues
  simp only [overwritten_map_self, Row.overwrite_eq] at hoverwritten
  exact hoverwritten

theorem Encoded.onlyRows {e : Text.Encoding} (ht : t.Encoded e) (picked : Row → Bool) :
    (t.onlyRows picked).Encoded e :=
  ⟨ht.headers, fun r hr => ht.values r (List.mem_of_mem_filter hr)⟩

theorem Storable.onlyRows (ht : t.Storable) (picked : Row → Bool) :
    (t.onlyRows picked).Storable where
  headers_ne_nil := ht.headers_ne_nil
  plain_headers := ht.plain_headers
  aligned r hr := ht.aligned r (List.mem_of_mem_filter hr)
  plain_values r hr := ht.plain_values r (List.mem_of_mem_filter hr)

/-- Of the rows that are left none is picked. -/
theorem onlyRows_picked (t : Table) (picked : Row → Bool) :
    (t.onlyRows fun r => !picked r).onlyRows picked = { t with rows := [] } := by
  simp [onlyRows, List.filter_filter]

theorem onlyRows_onlyRows (t : Table) (picked : Row → Bool) :
    (t.onlyRows picked).onlyRows picked = t.onlyRows picked := by
  simp [onlyRows, List.filter_filter]

theorem ids_assigned (h : ∀ a ∈ assignments, a.1 ≠ idColumn) (picked : Row → Bool) :
    (t.assigned picked assignments).ids = t.ids := by
  have hid : idColumn ∉ assignments.map Prod.fst := by
    intro hmem
    obtain ⟨a, ha, hid⟩ := List.mem_map.1 hmem
    exact h a ha hid
  simp only [ids, assigned, List.map_map]
  refine List.map_congr_left fun r _ => ?_
  simp only [Function.comp_apply]
  split
  · rw [← Row.overwrite_eq]
    exact Row.cell_overwrite_of_not_mem hid
  · rfl

end Table

/-! ### Commands that are repeated -/

section

open Operation

variable {w : World} {name condition : String} {t t' : Table} {path : Path}
  {assignments : List (String × String)}

/-- The commands about the rows on which a condition is true go through all rows. -/
theorem exists_passesRows_trueOn {condition : Option String} (ht : w.table name = .ok t)
    (hvalidate : (Condition.read condition).validate t.headers = .ok ()) :
    ∃ path faults, w.session.tablePath name = .ok path ∧ w.files.table name path = .ok t ∧
      PassesRows w name condition t path
        (t.rows.map fun r => (Condition.read condition).trueOn t.headers r.values) faults := by
  obtain ⟨path, hpath, hfile⟩ := World.exists_tablePath ht
  obtain ⟨selected, faults, hevaluate⟩ :=
    Condition.exists_evaluateAll hvalidate [] (t.rows.map Row.values)
  have hselected : selected =
      t.rows.map fun r => (Condition.read condition).trueOn t.headers r.values := by
    rw [Condition.eq_map_trueOn_of_evaluateAll hevaluate, List.map_map]
    rfl
  exact ⟨path, faults, hpath, hfile,
    hselected ▸ .of_evaluateAll hpath hfile hvalidate hevaluate⟩

theorem exists_passesRows (ht : w.table name = .ok t)
    (hvalidate : (Condition.read (some condition)).validate t.headers = .ok ()) :
    ∃ path faults, w.session.tablePath name = .ok path ∧ w.files.table name path = .ok t ∧
      PassesRows w name (some condition) t path (t.rows.map (t.isPicked condition)) faults :=
  exists_passesRows_trueOn ht hvalidate

theorem PassesRows.run_selectAll {faults : List ConditionError}
    (h : PassesRows w name (some condition) t path (t.rows.map (t.isPicked condition)) faults) :
    (Command.select name .all (some condition)).run.run w = .ok {
      columns := t.headers
      rows := (t.onlyRows (t.isPicked condition)).rows.map Row.values
      warnings := faults.map ConditionError.message } w := by
  rw [h.select .all t rfl, chosen_map_self]
  rfl

/-- A table that is written over the one in its file is read back, and writing it again changes
nothing. -/
theorem exists_store (hpath : w.session.tablePath name = .ok path)
    (ht : w.files.table name path = .ok t) (ht' : t'.Storable)
    (hencoded : t'.Encoded w.files.encoding) (hname : t'.name = t.name) :
    ∃ w', (∀ a : Answer, (do store t' path; return a : Operation Answer).run w = .ok a w') ∧
      w'.session = w.session ∧ w'.table name = .ok t' ∧
      ∀ a : Answer, (do store t' path; return a : Operation Answer).run w' = .ok a w' := by
  obtain ⟨w', hstore⟩ := exists_store_of_table ht hencoded
  have hread := table_of_store hpath ht' (hname.trans (FileTree.storable_of_table ht).2) hstore
  have hagain := (store_of_store hstore).2 hstore
  have hrun (a : Answer) : (do store t' path; return a : Operation Answer).run w = .ok a w' :=
    run_store_eq_ok_iff.2 ⟨rfl, hstore⟩
  have hsession : w'.session = w.session := by
    obtain ⟨files, -, rfl⟩ := store_eq_ok_iff.1 hstore
    rfl
  exact ⟨w', hrun, hsession, bind_eq_ok_iff.2 ⟨path, hread⟩,
    fun _ => run_store_eq_ok_iff.2 ⟨rfl, hagain⟩⟩

/-- An update writes the table with its assignments made. -/
theorem PassesRows.run_update {faults : List ConditionError}
    (h : PassesRows w name (some condition) t path (t.rows.map (t.isPicked condition)) faults)
    (hcolumns : ∀ a ∈ assignments, a.1 ∈ t.headers ∧ a.1 ≠ Table.idColumn) :
    (Command.update name assignments condition).run.run w = (do
      store (t.assigned (t.isPicked condition) assignments) path
      return { warnings := faults.map ConditionError.message } : Operation Answer).run w := by
  have hassignable : t.assignable (assignments.map Prod.fst) = .ok () := by
    refine Table.assignable_eq_ok_iff.2 fun c hc => ?_
    obtain ⟨a, ha, rfl⟩ := List.mem_map.1 hc
    exact hcolumns a ha
  rw [h.update condition rfl assignments hassignable, Table.overwritten_map_self]
  simp only [Row.overwrite_eq]
  rfl

/-- A deletion writes the table with the rows that are not picked. -/
theorem PassesRows.run_delete {faults : List ConditionError}
    (h : PassesRows w name (some condition) t path (t.rows.map (t.isPicked condition)) faults) :
    (Command.delete name condition).run.run w = (do
      store (t.onlyRows fun r => !t.isPicked condition r) path
      return { warnings := faults.map ConditionError.message } : Operation Answer).run w := by
  rw [h.delete condition rfl, List.map_map, chosen_map_self]
  rfl

/-- An update with values that can be encoded leaves the header, the numbers of the rows, and the
rows that a query under its condition does not show; in the rows that the query shows each column
has the value assigned to it last, if there is one. The same update changes nothing after that,
though its condition can be true on other rows then. -/
theorem update_twice (ht : w.table name = .ok t)
    (hcolumns : ∀ a ∈ assignments, a.1 ∈ t.headers ∧ a.1 ≠ Table.idColumn)
    (hplain : ∀ a ∈ assignments, Plain a.2)
    (hencodes : ∀ a ∈ assignments, w.files.encoding.Encodes a.2)
    (hvalidate : (Condition.read (some condition)).validate t.headers = .ok ()) :
    ∃ warnings again w' t',
      (Command.select name .all (some condition)).run.run w = .ok {
        columns := t.headers
        rows := (t.rows.filter (t.isPicked condition)).map Row.values
        warnings := warnings } w ∧
      (Command.update name assignments condition).run.run w = .ok { warnings := warnings } w' ∧
      w'.table name = .ok t' ∧ t'.headers = t.headers ∧ t'.ids = t.ids ∧
      t'.rows = t.rows.map (fun r =>
        if t.isPicked condition r then r.assigned assignments else r) ∧
      (Command.update name assignments condition).run.run w' = .ok again w' := by
  obtain ⟨path, faults, hpath, hfile, hpasses⟩ := exists_passesRows ht hvalidate
  have hstorable := (storable_of_worldTable ht).1.assigned hplain (t.isPicked condition)
  have hencoded := (FileTree.encoded_of_table hfile).assigned hencodes (t.isPicked condition)
  obtain ⟨w', hstore, hsession, ht', hagain⟩ := exists_store hpath hfile hstorable hencoded rfl
  obtain ⟨path', faults', hpath', -, hpasses'⟩ := exists_passesRows ht' hvalidate
  obtain rfl : path = path' := by
    rw [hsession, hpath] at hpath'
    exact Except.ok.inj hpath'
  have hids := Table.ids_assigned (t := t) (fun a ha => (hcolumns a ha).2) (t.isPicked condition)
  have hrepeated := hpasses'.run_update hcolumns
  rw [Table.isPicked_assigned, Table.assigned_assigned, hagain] at hrepeated
  refine ⟨_, _, w', _, hpasses.run_selectAll, ?_, ht', rfl, hids, rfl, hrepeated⟩
  rw [hpasses.run_update hcolumns]
  exact hstore _

/-- A table with two rows on which `a == 'x'` is true. -/
def sampleRows : Table := ⟨"t", ["id", "a", "b"], [⟨[("id", "1"), ("a", "x"), ("b", "p")]⟩,
  ⟨[("id", "2"), ("a", "y"), ("b", "q")]⟩, ⟨[("id", "2"), ("a", "x"), ("b", "p")]⟩]⟩

theorem storable_sampleRows : sampleRows.Storable where
  headers_ne_nil := by decide
  plain_headers := by decide
  aligned := by simp [Table.Aligned, sampleRows, Row.headers]
  plain_values := by decide

theorem table_sampleRows : (World.sample sampleRows.fileText).table "t" = .ok sampleRows := by
  have hread : Table.read "t" sampleRows.fileText = .ok sampleRows :=
    Table.read_fileText storable_sampleRows
  rw [World.table_sample, hread]
  rfl

/-- An update of the column that its condition asks for, with two values for it. -/
theorem update_twice_sample :
    ∃ a again w' t',
      (Command.update "t" [("a", "z"), ("b", "u"), ("a", "y")] "a == 'x'").run.run
        (.sample sampleRows.fileText) = .ok a w' ∧
      w'.table "t" = .ok t' ∧
      t'.rows.map Row.values = [["1", "y", "u"], ["2", "y", "q"], ["2", "y", "u"]] ∧
      (Command.update "t" [("a", "z"), ("b", "u"), ("a", "y")] "a == 'x'").run.run w' =
        .ok again w' := by
  have hcolumns : ∀ a ∈ [("a", "z"), ("b", "u"), ("a", "y")],
      a.1 ∈ sampleRows.headers ∧ a.1 ≠ Table.idColumn := by decide
  have hvalidate : (Condition.read (some "a == 'x'")).validate sampleRows.headers = .ok () := rfl
  obtain ⟨warnings, again, w', t', -, hupdate, ht', -, -, hrows, hagain⟩ :=
    update_twice table_sampleRows hcolumns (by decide)
      (fun a _ => Text.Encoding.encodes_utf8 a.2) hvalidate
  refine ⟨_, again, w', t', hupdate, ht', ?_, hagain⟩
  rw [hrows]
  rfl

/-- An update with an undecoded byte leaves the file empty, so all rows are gone. -/
theorem update_twice_undecoded :
    (World.sampleWith .lastByte "id\ta\n1\tx\n").table "t" =
      .ok ⟨"t", ["id", "a"], [⟨[("id", "1"), ("a", "x")]⟩]⟩ ∧
    Plain "\uf8ff" ∧ (Condition.read (some "a == 'x'")).validate ["id", "a"] = .ok () ∧
    (Command.update "t" [("a", "\uf8ff")] "a == 'x'").run.run
        (.sampleWith .lastByte "id\ta\n1\tx\n") =
      .error (.file ⟨.unencodable ⟨7, 0xff, 1⟩, ⟨0, ["r", "d", "t.tab"]⟩, .lastByte⟩)
        (.sampleWith .lastByte "") ∧
    (World.sampleWith .lastByte "").table "t" = .ok ⟨"t", ["id"], []⟩ := by
  have hread : Table.read "t" "id\ta\n1\tx\n" =
      .ok ⟨"t", ["id", "a"], [⟨[("id", "1"), ("a", "x")]⟩]⟩ := rfl
  have hempty : Table.read "t" "" = .ok ⟨"t", ["id"], []⟩ := rfl
  have hencodes : Text.Encoding.lastByte.Encodes "id\ta\n1\tx\n" := by decide
  have hfile := World.fileTable_sampleWith hencodes
  have hnothing := World.fileTable_sampleWith (Text.Encoding.encodes_empty .lastByte)
  rw [hread] at hfile
  rw [hempty] at hnothing
  have ht : (World.sampleWith .lastByte "id\ta\n1\tx\n").table "t" =
      .ok ⟨"t", ["id", "a"], [⟨[("id", "1"), ("a", "x")]⟩]⟩ :=
    bind_eq_ok_iff.2 ⟨_, World.tablePath_sampleWith _ _, hfile⟩
  have hupdated : Table.updated [("a", "\uf8ff")] "a == 'x'"
      ⟨"t", ["id", "a"], [⟨[("id", "1"), ("a", "x")]⟩]⟩ =
        .ok (⟨"t", ["id", "a"], [⟨[("id", "1"), ("a", "\uf8ff")]⟩]⟩, {}) := rfl
  have htext : (⟨"t", ["id", "a"], [⟨[("id", "1"), ("a", "\uf8ff")]⟩]⟩ : Table).fileText =
      "id\ta\n1\t\uf8ff\n" := rfl
  have hfault : Text.Encoding.lastByte.fault? "id\ta\n1\t\uf8ff\n" =
      some ⟨7, 0xff, 1⟩ := by decide
  refine ⟨ht, by decide, rfl, ?_, bind_eq_ok_iff.2 ⟨_, World.tablePath_sampleWith _ _, hnothing⟩⟩
  rw [Command.run, updateTable_eq,
    run_changeTable_of_eq_ok (World.tablePath_sampleWith _ _) hfile hupdated, run_store, htext,
    World.writeFile_sampleWith, hfault]
  rfl

/-- A deletion takes the rows that a query under its condition shows, with the warnings of the
query, and leaves the others in their order. After it the query shows no row, and the same deletion
changes nothing. -/
theorem delete_twice (ht : w.table name = .ok t)
    (hvalidate : (Condition.read (some condition)).validate t.headers = .ok ()) :
    ∃ warnings after again w',
      (Command.select name .all (some condition)).run.run w = .ok {
        columns := t.headers
        rows := (t.rows.filter (t.isPicked condition)).map Row.values
        warnings := warnings } w ∧
      (Command.delete name condition).run.run w = .ok { warnings := warnings } w' ∧
      w'.table name = .ok { t with rows := t.rows.filter fun r => !t.isPicked condition r } ∧
      (Command.select name .all (some condition)).run.run w' =
        .ok { columns := t.headers, rows := [], warnings := after } w' ∧
      (Command.delete name condition).run.run w' = .ok again w' := by
  obtain ⟨path, faults, hpath, hfile, hpasses⟩ := exists_passesRows ht hvalidate
  have hstorable := (storable_of_worldTable ht).1.onlyRows fun r => !t.isPicked condition r
  have hencoded := (FileTree.encoded_of_table hfile).onlyRows fun r => !t.isPicked condition r
  obtain ⟨w', hstore, hsession, ht', hagain⟩ := exists_store hpath hfile hstorable hencoded rfl
  obtain ⟨path', faults', hpath', -, hpasses'⟩ := exists_passesRows ht' hvalidate
  obtain rfl : path = path' := by
    rw [hsession, hpath] at hpath'
    exact Except.ok.inj hpath'
  have hshown := hpasses'.run_selectAll
  rw [Table.isPicked_onlyRows, Table.onlyRows_picked] at hshown
  have hrepeated := hpasses'.run_delete
  rw [Table.isPicked_onlyRows, Table.onlyRows_onlyRows, hagain] at hrepeated
  refine ⟨_, _, _, w', hpasses.run_selectAll, ?_, ht', hshown, hrepeated⟩
  rw [hpasses.run_delete]
  exact hstore _

/-- A deletion of two rows around a third one. -/
theorem delete_twice_sample :
    ∃ a after again w',
      (Command.delete "t" "a == 'x'").run.run (.sample sampleRows.fileText) = .ok a w' ∧
      w'.table "t" = .ok { sampleRows with rows := [⟨[("id", "2"), ("a", "y"), ("b", "q")]⟩] } ∧
      (Command.select "t" .all (some "a == 'x'")).run.run w' =
        .ok { columns := ["id", "a", "b"], rows := [], warnings := after } w' ∧
      (Command.delete "t" "a == 'x'").run.run w' = .ok again w' := by
  have hvalidate : (Condition.read (some "a == 'x'")).validate sampleRows.headers = .ok () := rfl
  obtain ⟨warnings, after, again, w', -, hdelete, ht', hselect, hagain⟩ :=
    delete_twice table_sampleRows hvalidate
  refine ⟨_, after, again, w', hdelete, ?_, hselect, hagain⟩
  rw [ht']
  rfl

end

end Tabula
