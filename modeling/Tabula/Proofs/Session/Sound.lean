import Tabula.Proofs.Session.Aligned
import Tabula.Proofs.Session.Run

/-!
# Sound tables

A table is sound if it can be stored, repeats no column name and has an `id` column. A new table is
sound, and every change keeps it so, if the names and values that come in are plain. A table that
can be stored need not stay one without the rest: the `id` column is the one that is never dropped,
and dropping a repeated column takes one name from the header but every cell under it.
-/

namespace Tabula

open Text (Plain)

namespace Table

structure Sound (t : Table) : Prop extends Storable t where
  nodup_headers : t.headers.Nodup
  id_mem_headers : idColumn ∈ t.headers

variable {t t' : Table} {a : Answer}

/-! ### New tables -/

theorem nodup_of_repeated? {seen names : List String}
    (h : Operation.repeated? seen names = none) : names.Nodup ∧ ∀ n ∈ names, n ∉ seen := by
  induction names generalizing seen with
  | nil => simp
  | cons n names ih =>
    rw [Operation.repeated?] at h
    split at h
    · cases h
    · rename_i hn
      obtain ⟨hnodup, hseen⟩ := ih h
      refine ⟨List.nodup_cons.2 ⟨fun hmem => hseen n hmem (by simp), hnodup⟩, ?_⟩
      intro m hm
      rcases List.mem_cons.1 hm with rfl | hm
      · exact hn
      · exact fun hmem => hseen m hm (List.mem_cons_of_mem n hmem)

/-- A new table is sound. -/
theorem sound_of_newTable {name : String} {declared : List String}
    (hplain : ∀ c ∈ declared, Plain c) (h : Operation.newTable name declared = .ok t) :
    t.Sound ∧ t.name = name := by
  unfold Operation.newTable at h
  split at h
  · cases h
  · rename_i hrepeated
    cases h
    refine ⟨⟨⟨by simp [empty], ?_, by simp [empty, Aligned], by simp [empty]⟩, ?_, ?_⟩, rfl⟩
    · intro c hc
      rcases List.mem_cons.1 hc with rfl | hc
      · exact plain_idColumn
      · exact hplain c (List.mem_filter.1 hc).1
    · refine List.nodup_cons.2 ⟨fun hid => ?_, (nodup_of_repeated? hrepeated).1⟩
      simp [Operation.columnsOf] at hid
    · simp [empty]

/-! ### Changes of rows -/

/-- A sound table is sound with other rows, if they are aligned and plain. -/
theorem Sound.withRows (ht : t.Sound) {rows : List Row}
    (h : ∀ r ∈ rows, r.headers = t.headers ∧ ∀ v ∈ r.values, Plain v) :
    Sound { t with rows := rows } where
  headers_ne_nil := ht.headers_ne_nil
  plain_headers := ht.plain_headers
  aligned r hr := (h r hr).1
  plain_values r hr := (h r hr).2
  nodup_headers := ht.nodup_headers
  id_mem_headers := ht.id_mem_headers

theorem sound_of_inserted (ht : t.Sound) {name : String} {values : List String}
    (hplain : ∀ v ∈ values, Plain v) (h : t.inserted name values = .ok (t', a)) :
    t'.Sound ∧ t'.name = t.name := by
  obtain ⟨hrow, rfl, -⟩ := (inserted_eq_ok_iff ht.headers_ne_nil).1 h
  have hcells : ∀ v ∈ toString (t.rows.length + 1) :: values, Plain v := by
    intro v hv
    rcases List.mem_cons.1 hv with rfl | hv
    · exact Text.plain_toString _
    · exact hplain v hv
  exact ⟨⟨ht.toStorable.addRow hrow hcells, ht.nodup_headers, ht.id_mem_headers⟩, rfl⟩

theorem sound_of_deleted (ht : t.Sound) {condition : String}
    (h : t.deleted condition = .ok (t', a)) : t'.Sound ∧ t'.name = t.name := by
  obtain ⟨selected, faults, -, -, rfl, -⟩ := judged_of_deleted h
  refine ⟨ht.withRows fun r hr => ?_, rfl⟩
  have hmem := mem_of_mem_chosen hr
  exact ⟨ht.aligned r hmem, ht.plain_values r hmem⟩

/-- A row after assignments is a row of before, with the assignments made or not. -/
theorem exists_of_mem_overwritten {selected : List Bool} {assignments : List (String × String)}
    {rows : List Row} {r : Row} (h : r ∈ overwritten selected assignments rows) :
    ∃ s ∈ rows, r = s.overwrite assignments ∨ r = s := by
  induction selected generalizing rows with
  | nil => simp [overwritten] at h
  | cons b selected ih =>
    cases rows with
    | nil => simp [overwritten] at h
    | cons s rows =>
      rcases List.mem_cons.1 h with rfl | h
      · refine ⟨s, by simp, ?_⟩
        cases b
        · exact .inr rfl
        · exact .inl rfl
      · obtain ⟨s', hs', hr⟩ := ih h
        exact ⟨s', List.mem_cons_of_mem s hs', hr⟩

theorem sound_of_updated (ht : t.Sound) {assignments : List (String × String)} {condition : String}
    (hplain : ∀ v ∈ assignments.map Prod.snd, Plain v)
    (h : t.updated assignments condition = .ok (t', a)) : t'.Sound ∧ t'.name = t.name := by
  obtain ⟨-, selected, faults, -, -, rfl, -⟩ := judged_of_updated ht.aligned h
  refine ⟨ht.withRows fun r hr => ?_, rfl⟩
  obtain ⟨s, hs, rfl | rfl⟩ := exists_of_mem_overwritten hr
  · refine ⟨(Row.headers_overwrite s assignments).trans (ht.aligned s hs), fun v hv => ?_⟩
    rcases Row.mem_values_overwrite hv with hv | hv
    · exact hplain v hv
    · exact ht.plain_values s hs v hv
  · exact ⟨ht.aligned r hs, ht.plain_values r hs⟩

/-! ### Changes of columns -/

theorem Sound.extended (ht : t.Sound) {column : String} (hplain : Plain column)
    (hcolumn : column ∉ t.headers) : (t.extended column).Sound where
  toStorable := ht.toStorable.extended hplain
  nodup_headers := by
    refine List.nodup_append.2 ⟨ht.nodup_headers, by simp, ?_⟩
    rintro c hc d hd rfl
    obtain rfl := List.mem_singleton.1 hd
    exact hcolumn hc
  id_mem_headers := List.mem_append_left _ ht.id_mem_headers

theorem Sound.reduced (ht : t.Sound) {column : String} (hid : column ≠ idColumn) :
    (t.reduced column).Sound := by
  have hmem : idColumn ∈ t.headers.erase column :=
    (List.mem_erase_of_ne hid.symm).2 ht.id_mem_headers
  exact ⟨ht.toStorable.reduced ht.nodup_headers (List.ne_nil_of_mem hmem),
    ht.nodup_headers.erase column, hmem⟩

theorem sound_of_altered (ht : t.Sound) {alteration : Alteration} {column : String}
    (hplain : Plain column) (h : t.altered alteration column = .ok (t', a)) :
    t'.Sound ∧ t'.name = t.name := by
  rcases (altered_eq_ok_iff ht.aligned).1 h with ⟨-, hcolumn, rfl, -⟩ | ⟨-, ⟨-, hid⟩, rfl, -⟩
  · exact ⟨ht.extended hplain hcolumn, rfl⟩
  · exact ⟨ht.reduced hid, rfl⟩

end Table

end Tabula
