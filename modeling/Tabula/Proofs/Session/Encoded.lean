import Tabula.Proofs.Session.Reason
import Tabula.Proofs.Session.Sound
import Tabula.Proofs.Table.Encoded

/-!
# Commands on texts that can be encoded

A table that is read from a file can be encoded, as every text of a file can be. Every change keeps
it so if the names and values that come in can be encoded. So a command has a table to write that
cannot be encoded only if one of its own names or values cannot (`Command.Saves.encodes`).
-/

namespace Tabula

open Text (Encoding)

variable {e : Encoding}

/-! ### Tables from files -/

theorem FileTree.encodes_of_readFile {t : FileTree} {p : Path} {c : Content} {s : String}
    (h : t.readFile p = .ok c) (hread : c.read = .ok s) : t.encoding.Encodes s := by
  obtain ⟨place, -, h⟩ := bind_eq_ok_iff.1 h
  split at h
  · cases h
  · cases h
  · cases h
    exact (Content.read_found_eq_ok_iff.1 hread).2

theorem FileTree.encoded_of_table {t : FileTree} {name : String} {path : Path} {tab : Table}
    (h : t.table name path = .ok tab) : tab.Encoded t.encoding := by
  obtain ⟨there, -, h⟩ := bind_eq_ok_iff.1 h
  cases there with
  | false => cases h
  | true =>
    obtain ⟨content, hfile, h⟩ := bind_eq_ok_iff.1 h
    obtain ⟨text, hread, h⟩ := bind_eq_ok_iff.1 h
    have htext := encodes_of_readFile (mapError_eq_ok_iff.1 hfile) (mapError_eq_ok_iff.1 hread)
    exact Table.encoded_of_read htext (mapError_eq_ok_iff.1 h)

/-! ### Changes of tables -/

namespace Table

variable {t t' : Table} {a : Answer}

theorem encoded_of_newTable {name : String} {declared : List String}
    (hcolumns : ∀ c ∈ declared, e.Encodes c) (h : Operation.newTable name declared = .ok t) :
    t.Encoded e := by
  unfold Operation.newTable at h
  split at h
  · cases h
  · cases h
    refine ⟨List.forall_mem_cons.2 ⟨IsName.encodes (by decide), fun c hc => ?_⟩, by simp [empty]⟩
    exact hcolumns c (List.mem_filter.1 hc).1

theorem encoded_of_inserted (hne : t.headers ≠ []) (ht : t.Encoded e) {name : String}
    {values : List String} (hvalues : ∀ v ∈ values, e.Encodes v)
    (h : t.inserted name values = .ok (t', a)) : t'.Encoded e := by
  obtain ⟨-, rfl, -⟩ := (inserted_eq_ok_iff hne).1 h
  refine ⟨ht.headers, fun r hr v hv => ?_⟩
  rcases List.mem_append.1 hr with hr | hr
  · exact ht.values r hr v hv
  · obtain rfl := List.mem_singleton.1 hr
    obtain ⟨⟨_, _⟩, hcell, rfl⟩ := List.mem_map.1 hv
    rcases List.mem_cons.1 (List.of_mem_zip hcell).2 with rfl | hv
    · exact Text.encodes_toString _
    · exact hvalues _ hv

theorem Encoded.chosen (ht : t.Encoded e) (selected : List Bool) :
    Encoded { t with rows := chosen selected t.rows } e :=
  ⟨ht.headers, fun r hr => ht.values r (mem_of_mem_chosen hr)⟩

theorem Encoded.overwritten (ht : t.Encoded e) (selected : List Bool)
    {assignments : List (String × String)}
    (hvalues : ∀ v ∈ assignments.map Prod.snd, e.Encodes v) :
    Encoded { t with rows := overwritten selected assignments t.rows } e := by
  refine ⟨ht.headers, fun r hr v hv => ?_⟩
  obtain ⟨s, hs, rfl | rfl⟩ := exists_of_mem_overwritten hr
  · rcases Row.mem_values_overwrite hv with hv | hv
    · exact hvalues v hv
    · exact ht.values s hs v hv
  · exact ht.values r hs v hv

theorem encoded_of_deleted (ht : t.Encoded e) {condition : String}
    (h : t.deleted condition = .ok (t', a)) : t'.Encoded e := by
  obtain ⟨selected, faults, -, -, rfl, -⟩ := judged_of_deleted h
  exact ht.chosen _

theorem encoded_of_updated (haligned : t.Aligned) (ht : t.Encoded e)
    {assignments : List (String × String)} {condition : String}
    (hvalues : ∀ v ∈ assignments.map Prod.snd, e.Encodes v)
    (h : t.updated assignments condition = .ok (t', a)) : t'.Encoded e := by
  obtain ⟨-, selected, faults, -, -, rfl, -⟩ := judged_of_updated haligned h
  exact ht.overwritten selected hvalues

theorem Encoded.extended (ht : t.Encoded e) {column : String} (hcolumn : e.Encodes column) :
    (t.extended column).Encoded e := by
  refine ⟨fun c hc => ?_, fun r hr v hv => ?_⟩
  · rcases List.mem_append.1 hc with hc | hc
    · exact ht.headers c hc
    · obtain rfl := List.mem_singleton.1 hc
      exact hcolumn
  · obtain ⟨s, hs, rfl⟩ := List.mem_map.1 hr
    rw [Row.values_withColumn] at hv
    rcases List.mem_append.1 hv with hv | hv
    · exact ht.values s hs v hv
    · obtain rfl := List.mem_singleton.1 hv
      exact Encoding.encodes_empty e

theorem Encoded.reduced (ht : t.Encoded e) (column : String) : (t.reduced column).Encoded e := by
  refine ⟨fun c hc => ht.headers c (List.mem_of_mem_erase hc), fun r hr v hv => ?_⟩
  obtain ⟨s, hs, rfl⟩ := List.mem_map.1 hr
  exact ht.values s hs v (Row.mem_values_dropColumn hv)

theorem Encoded.remainder (haligned : t.Aligned) (ht : t.Encoded e) (column : String) :
    (t.remainder column).Encoded e := by
  have hreduced := ht.reduced column
  rwa [← encodes_fileText_iff, ← fileText_remainder haligned, encodes_fileText_iff] at hreduced

theorem encoded_of_altered (haligned : t.Aligned) (ht : t.Encoded e) {alteration : Alteration}
    {column : String} (hcolumn : e.Encodes column)
    (h : t.altered alteration column = .ok (t', a)) : t'.Encoded e := by
  rcases (altered_eq_ok_iff haligned).1 h with ⟨-, -, rfl, -⟩ | ⟨-, -, rfl, -⟩
  · exact ht.extended hcolumn
  · exact ht.reduced column

end Table

/-! ### Commands -/

namespace Command

variable {command : Command} {w : World} {path : Path} {t : Table}

theorem encoded_of_change? {n : String} {f : Table → Except Failure (Table × Answer)} {t' : Table}
    {a : Answer} (hchange : command.change? = some (n, f)) (ht : t.Storable)
    (hencoded : t.Encoded e) (hcolumns : ∀ c ∈ command.newColumns, e.Encodes c)
    (hvalues : ∀ v ∈ command.values, e.Encodes v) (hf : f t = .ok (t', a)) : t'.Encoded e := by
  cases command <;> cases hchange
  · exact Table.encoded_of_altered ht.aligned hencoded (hcolumns _ (by simp [newColumns])) hf
  · exact Table.encoded_of_inserted ht.headers_ne_nil hencoded hvalues hf
  · exact Table.encoded_of_updated ht.aligned hencoded hvalues hf
  · exact Table.encoded_of_deleted hencoded hf

/-- A table that a command writes can be encoded if what comes in with the command can be. -/
theorem Saves.encodes (h : command.Saves w path t)
    (hcolumns : ∀ c ∈ command.newColumns, w.files.encoding.Encodes c)
    (hvalues : ∀ v ∈ command.values, w.files.encoding.Encodes v) :
    w.files.encoding.Encodes t.fileText := by
  rw [Table.encodes_fileText_iff]
  cases h with
  | createTable _ _ hnew => exact Table.encoded_of_newTable hcolumns hnew
  | change hchange _ ht hf =>
    exact encoded_of_change? hchange (FileTree.storable_of_table ht).1
      (FileTree.encoded_of_table ht) hcolumns hvalues hf

/-- The names in a statement can be encoded, so it is for a value that its table cannot be. -/
theorem Saves.exists_value {text : String} (hparse : Command.parse text = .ok command)
    (h : command.Saves w path t) (hencodes : ¬ w.files.encoding.Encodes t.fileText) :
    ∃ v ∈ command.values, ¬ w.files.encoding.Encodes v := by
  by_contra hvalues
  refine hencodes (h.encodes (fun c hc => ?_) fun v hv => ?_)
  · exact (isName_of_parse hparse (List.mem_append_right _ hc)).encodes
  · by_contra hv'
    exact hvalues ⟨v, hv, hv'⟩

end Command

end Tabula
