import Tabula.Proofs.Session.Shared
import Tabula.Proofs.Session.Sound

/-!
# Headers that commands make

A command can put any value in a table, and a value with a tab or a line break moves the cells of
its row when the file is read again. The header is out of reach of that: it is the first line of the
file, and holds what commands have declared. So of every table that sessions on an empty directory
can come to read, whatever has been stored in it, the header holds names, none of them twice, and
`id` among them (`Shared.isHeader_of_run`).
-/

namespace Tabula

open Operation (tableSuffix)

/-- The names in a header, none twice. -/
structure IsHeader (header : List String) : Prop where
  names : ∀ c ∈ header, IsName c
  nodup : header.Nodup
  id_mem : Table.idColumn ∈ header

variable {t t' : Table} {a : Answer} {command : Command}

theorem IsHeader.ne_nil {header : List String} (h : IsHeader header) : header ≠ [] :=
  List.ne_nil_of_mem h.id_mem

theorem isHeader_of_newTable {name : String} {declared : List String}
    (hnames : ∀ c ∈ declared, IsName c) (h : Operation.newTable name declared = .ok t) :
    IsHeader t.headers := by
  unfold Operation.newTable at h
  split at h
  · cases h
  · rename_i hrepeated
    cases h
    refine ⟨List.forall_mem_cons.2 ⟨by decide, fun c hc => ?_⟩, ?_, List.mem_cons_self⟩
    · exact hnames c (List.mem_filter.1 hc).1
    · refine List.nodup_cons.2 ⟨fun hid => ?_, (Table.nodup_of_repeated? hrepeated).1⟩
      simp [Operation.columnsOf] at hid

theorem IsHeader.of_altered {alteration : Alteration} {column : String} (ht : IsHeader t.headers)
    (haligned : t.Aligned) (hcolumn : IsName column)
    (h : t.altered alteration column = .ok (t', a)) : IsHeader t'.headers := by
  rcases (Table.altered_eq_ok_iff haligned).1 h with
    ⟨-, hnew, rfl, -⟩ | ⟨-, ⟨-, hid⟩, rfl, -⟩
  · refine ⟨List.forall_mem_append.2 ⟨ht.names, ?_⟩, ?_, List.mem_append_left _ ht.id_mem⟩
    · exact List.forall_mem_singleton.2 hcolumn
    · refine List.nodup_append.2 ⟨ht.nodup, List.nodup_singleton _, ?_⟩
      rintro c hc _ hcolumn rfl
      exact hnew (List.mem_singleton.1 hcolumn ▸ hc)
  · refine ⟨fun c hc => ht.names c (List.mem_of_mem_erase hc), ht.nodup.erase _, ?_⟩
    exact (List.mem_erase_of_ne (Ne.symm hid)).2 ht.id_mem

/-- A change of rows leaves the header, and an alteration changes it by one name. -/
theorem IsHeader.of_change? {n : String} {change : Table → Except Failure (Table × Answer)}
    (hchange : command.change? = some (n, change)) (hnames : ∀ c ∈ command.newColumns, IsName c)
    (ht : IsHeader t.headers) (haligned : t.Aligned) (h : change t = .ok (t', a)) :
    IsHeader t'.headers := by
  cases command with
  | alterTable table alteration column =>
    cases hchange
    exact ht.of_altered haligned (hnames column (by simp [Command.newColumns])) h
  | insert table values =>
    cases hchange
    obtain ⟨-, rfl, -⟩ := (Table.inserted_eq_ok_iff ht.ne_nil).1 h
    exact ht
  | update table assignments condition =>
    cases hchange
    obtain ⟨-, _, _, -, -, rfl, -⟩ := Table.judged_of_updated haligned h
    exact ht
  | delete table condition =>
    cases hchange
    obtain ⟨_, _, -, -, rfl, -⟩ := Table.judged_of_deleted h
    exact ht
  | _ => cases hchange

namespace Ground

variable {G : Ground} {files files' : FileTree} {d n : String} {selected : Option String}

/-- Every file in a database is read as a table with such a header, if it can be read as one. -/
def Headed (G : Ground) (files : FileTree) : Prop :=
  ∀ d f entry, files.at? (G.place ++ [d, f]) = some entry →
    ∃ text, entry = .file (.text text) ∧
      ∀ n t, Table.read n text = .ok t → IsHeader t.headers

theorem headed_files (G : Ground) : G.Headed G.files := by
  intro d f entry hentry
  rw [G.empty _ (by simp)] at hentry
  cases hentry

theorem Stores.aligned (ht : G.Stores files d n t) : t.Aligned := by
  obtain ⟨c, text, -, -, hread⟩ := ht
  exact (Table.storable_of_read hread).1.aligned

namespace Headed

theorem isHeader (h : G.Headed files) (ht : G.Stores files d n t) : IsHeader t.headers := by
  obtain ⟨c, text, hfile, hdecode, hread⟩ := ht
  obtain ⟨_, hentry, hheader⟩ := h d (n ++ tableSuffix) _ hfile
  cases hentry
  cases hdecode
  exact hheader n t hread

/-- A table with such a header keeps it in its file. -/
theorem isHeader_of_read_fileText (ht : IsHeader t.headers) {n : String}
    (h : Table.read n t.fileText = .ok t') : IsHeader t'.headers := by
  rw [Table.headers_of_read_fileText ht.ne_nil (fun c hc => (ht.names c hc).plain) h]
  exact ht

theorem effect (h : G.Headed files) (heffect : G.Effect selected files command files')
    (hnames : ∀ c ∈ command.newColumns, IsName c) : G.Headed files' := by
  intro d f entry hentry
  rcases heffect.entry_cases hentry with hkept | ⟨n, columns, t, -, rfl, -, -, hnew, -, rfl⟩ |
    ⟨n, change, t, t', a, -, hchange, -, hstores, hchanged, -, rfl⟩
  · exact h d f entry hkept
  · have ht := isHeader_of_newTable hnames hnew
    exact ⟨_, rfl, fun _ _ => isHeader_of_read_fileText ht⟩
  · have ht := (h.isHeader hstores).of_change? hchange hnames hstores.aligned hchanged
    exact ⟨_, rfl, fun _ _ => isHeader_of_read_fileText ht⟩

/-- An empty file is read as a table with the column `id`. -/
theorem emptied (h : G.Headed files) (d n : String) :
    G.Headed (files.put (G.tablePlace d n) (.file (.text ""))) := by
  intro d' f entry hentry
  by_cases hplace : G.place ++ [d', f] = G.tablePlace d n
  · rw [hplace, FileTree.at?_put_self _ (by simp [tablePlace])] at hentry
    cases hentry
    refine ⟨_, rfl, fun m t hread => ?_⟩
    obtain rfl := Except.ok.inj ((Table.wellWritten_empty m).read_eq.symm.trans hread)
    have hnone : ∀ c ∈ ([] : List String), IsName c := by simp
    exact isHeader_of_newTable hnone rfl
  · rw [FileTree.at?_put_of_ne _ hplace] at hentry
    exact h d' f entry hentry

end Headed

end Ground

namespace Shared

variable {S : Shared} {G : Ground} {d n : String}

theorem Hosted.headed_step (h : S.Hosted G) (hheaded : G.Headed S.files) (e : Event) :
    G.Headed (S.step e).files := by
  rcases h.step_cases e with hsame | ⟨d, n, -, -, hstep⟩ |
    ⟨s, command, a, w, -, hparse, -, heffect, hstep⟩
  · rwa [hsame]
  · rw [hstep]
    exact hheaded.emptied d n
  · rw [hstep]
    exact hheaded.effect heffect fun c hc => isName_of_parse hparse (by simp [hc])

theorem Hosted.headed_run (h : S.Hosted G) (hheaded : G.Headed S.files) (events : List Event) :
    G.Headed (S.run events).files := by
  induction events generalizing S with
  | nil => exact hheaded
  | cons e events ih => exact ih (h.step e) (h.headed_step hheaded e)

/-- Sessions start on an empty directory and respond to any statements. Then every table that can be
read from a file in a database has names in its header, none twice, and `id` among them. -/
theorem isHeader_of_run {sessions : List Session} {events : List Event}
    (hstart : ∀ s ∈ sessions, s.selected = none ∧ G.files.locate s.root = .ok G.place)
    (ht : G.Stores ((⟨sessions, G.files⟩ : Shared).run events).files d n t) :
    IsHeader t.headers :=
  ((hosted_of_start hstart).headed_run G.headed_files events).isHeader ht

end Shared

end Tabula
